import ModuleAtlas.Program.Load
import ModuleAtlas.Proofs.File.Names
import ModuleAtlas.Proofs.Graph.Built
import ModuleAtlas.Proofs.Path.Order
import Mathlib.Data.List.Induction
import Mathlib.Data.List.Pairwise

/-!
# The files of a program

A program is read if each of its files comes from a text and they stand in path order, one
for each path. Programs of texts held in memory and programs that were loaded are read.
-/

namespace ModuleAtlas

set_option autoImplicit false

namespace SourceFile

def FromText (f : SourceFile) : Prop := ∃ text, parse f.path (.ofString text) = .ok f

end SourceFile

namespace Program

open SourceFile

structure Read (p : Program) : Prop where
  parsed : ∀ f ∈ p.files, f.FromText
  ordered : p.files.Pairwise fun f g => Path.cmp f.path g.path = .lt

section

variable {p : Program} {f g : SourceFile}

theorem Read.grounded (h : p.Read) (hf : f ∈ p.files) : f.Grounded := by
  obtain ⟨text, hText⟩ := h.parsed f hf
  exact grounded_of_parse hText

theorem Read.eq_of_same (h : p.Read) (hf : f ∈ p.files) (hg : g ∈ p.files)
    (hSame : f.path.same g.path = true) : f = g := by
  have hDistinct : p.files.Pairwise fun f g => f.path.same g.path = true → f = g := by
    refine h.ordered.imp fun {f g} hLt hSame => ?_
    rw [Path.cmp_eq_iff_same.mpr hSame] at hLt
    cases hLt
  have hSymm : Std.Symm fun f g : SourceFile => f.path.same g.path = true → f = g :=
    ⟨fun f g hfg hSame => (hfg (by rwa [Path.same_comm])).symm⟩
  exact hDistinct.forall_of_forall (fun _ _ _ => rfl) hf hg hSame

theorem Read.file?_eq_some (h : p.Read) (hf : f ∈ p.files) {q : Path} (hSame : q.same f.path = true) :
    p.file? q = some f := by
  cases hFind : p.file? q with
  | none =>
    have hNone := List.find?_eq_none.mp hFind f hf
    rw [Path.same_comm, hSame] at hNone
    exact absurd rfl hNone
  | some g =>
    have hFound := List.find?_some hFind
    rw [Path.same_iff] at hFound hSame
    have hEq := h.eq_of_same (List.mem_of_find?_eq_some hFind) hf (Path.same_iff.mpr (hFound.trans hSame))
    rw [hEq]

theorem Read.paths_nodup (h : p.Read) : p.paths.Nodup := by
  refine List.pairwise_map.mpr (h.ordered.imp fun {f g} hLt hEq => ?_)
  rw [hEq] at hLt
  exact Path.cmp_lt_irrefl _ hLt

theorem Read.files_nodup (h : p.Read) : p.files.Nodup := .of_map SourceFile.path h.paths_nodup

theorem mem_paths_of_resolve {importer target : Path} {name : String}
    (h : p.resolve importer name = some target) : target ∈ p.paths := by
  obtain ⟨base, -, hTarget⟩ := Option.bind_eq_some_iff.mp h
  obtain ⟨candidate, -, hMember⟩ := List.exists_of_findSome?_eq_some hTarget
  exact List.mem_of_find?_eq_some hMember

theorem Read.same_path_iff (h : p.Read) (hg : g ∈ p.files) {q : Path} (hq : q ∈ p.paths) :
    q.same g.path = true ↔ q = g.path := by
  obtain ⟨f, hf, rfl⟩ := List.mem_map.mp hq
  constructor
  · intro hSame
    rw [h.eq_of_same hf hg hSame]
  · intro hEq
    rw [hEq, Path.same_self]

end

theorem mem_insertFile {f g : SourceFile} {files : List SourceFile} (h : g ∈ insertFile f files) :
    g = f ∨ g ∈ files := by
  fun_induction insertFile f files with
  | case1 => exact .inl (List.mem_singleton.mp h)
  | case2 => exact List.mem_cons.mp h
  | case3 => exact (List.mem_cons.mp h).imp_right (List.mem_cons_of_mem _)
  | case4 k rest _ ih =>
    rcases List.mem_cons.mp h with rfl | h
    · exact .inr List.mem_cons_self
    · exact (ih h).imp_right (List.mem_cons_of_mem _)

theorem ordered_insertFile (f : SourceFile) {files : List SourceFile}
    (h : files.Pairwise fun f g => Path.cmp f.path g.path = .lt) :
    (insertFile f files).Pairwise fun f g => Path.cmp f.path g.path = .lt := by
  fun_induction insertFile f files with
  | case1 => exact List.pairwise_singleton _ _
  | case2 g rest hLt =>
    obtain ⟨hFirst, -⟩ := List.pairwise_cons.mp h
    refine List.pairwise_cons.mpr ⟨List.forall_mem_cons.mpr ⟨hLt, fun k hk => ?_⟩, h⟩
    exact Path.cmp_lt_trans hLt (hFirst k hk)
  | case3 g rest hEq =>
    obtain ⟨hFirst, hRest⟩ := List.pairwise_cons.mp h
    refine List.pairwise_cons.mpr ⟨fun k hk => ?_, hRest⟩
    rw [Path.cmp, Path.eq_of_cmpParts hEq]
    exact hFirst k hk
  | case4 g rest hGt ih =>
    obtain ⟨hFirst, hRest⟩ := List.pairwise_cons.mp h
    refine List.pairwise_cons.mpr ⟨fun k hk => ?_, ih hRest⟩
    rcases mem_insertFile hk with rfl | hk
    · exact Path.cmp_eq_gt_iff.mp hGt
    · exact hFirst k hk

theorem read_assemble (root : Path) (aliases : List Alias)
    {outcomes : List (Path × Except Fault SourceFile)}
    (h : ∀ o ∈ outcomes, ∀ f, o.2 = .ok f → f.FromText) : (assemble root aliases outcomes).Read := by
  -- The last outcome is dealt with last, so the induction goes from the end.
  induction outcomes using List.reverseRecOn with
  | nil => exact ⟨fun f hf => absurd hf List.not_mem_nil, .nil⟩
  | append_singleton outcomes o ih =>
    obtain ⟨hOutcomes, ho⟩ := List.forall_mem_append.mp h
    obtain ⟨hParsed, hOrdered⟩ := ih hOutcomes
    cases hOutcome : o.2 with
    | error fault =>
      have hFiles : (assemble root aliases (outcomes ++ [o])).files = (assemble root aliases outcomes).files := by
        simp [assemble, hOutcome]
      exact ⟨by rwa [hFiles], by rwa [hFiles]⟩
    | ok f =>
      have hFiles : (assemble root aliases (outcomes ++ [o])).files =
          insertFile f (assemble root aliases outcomes).files := by
        simp [assemble, hOutcome]
      constructor
      case parsed =>
        intro g hg
        rw [hFiles] at hg
        rcases mem_insertFile hg with rfl | hg
        · exact ho o (List.mem_singleton_self o) g hOutcome
        · exact hParsed g hg
      case ordered =>
        rw [hFiles]
        exact ordered_insertFile f hOrdered

theorem fromText_of_parse {path : Path} {text : String} {clock : Clock} {f : SourceFile}
    (h : SourceFile.parse path (.ofString text) clock = .ok f) : f.FromText :=
  ⟨text, by rw [path_of_parse h, parse_of_clock h]⟩

theorem fromText_of_readSource {limit : Nat} {path : Path} {text : String} {clock : Clock} {f : SourceFile}
    (h : readSource limit path (.ofString text) clock = .ok f) : f.FromText := by
  unfold readSource at h
  split at h
  · cases h
  · exact fromText_of_parse h

theorem read_ofSources (root : Path) (texts : List (Path × String)) (aliases : List Alias) (clock : Clock := {}) :
    (ofSources root (texts.map fun t => (t.1, .ofString t.2)) aliases clock).Read := by
  refine read_assemble _ _ fun o ho f hf => ?_
  simp only [List.map_map, List.mem_map] at ho
  obtain ⟨t, -, rfl⟩ := ho
  exact fromText_of_readSource hf

end Program

namespace Workspace

theorem fromText_of_readSource {w : Workspace} {limit timeout : Nat} {path : Path} {f : SourceFile}
    (h : w.readSource limit timeout path = .ok f) : f.FromText := by
  unfold readSource at h
  split at h
  · cases h
  · split at h
    · cases h
    · split at h
      · cases h
      · rename_i content _
        split at h
        · rename_i hText
          have hValid := ByteArray.validateUTF8_eq_true_iff.mp hText
          have hParse : SourceFile.parse path (.ofString ⟨content, hValid⟩) ⟨timeout, w.late⟩ = .ok f := h
          exact Program.fromText_of_parse hParse
        · cases h

theorem read_of_load {w : Workspace} {s : Settings} {p : Program} (h : w.load s = .ok p) : p.Read := by
  simp only [load, bind, Except.bind] at h
  split at h
  · cases h
  · split at h
    · cases h
    · split at h
      · cases h
      · cases h
        refine Program.read_assemble _ _ fun o ho f hf => ?_
        obtain ⟨path, -, rfl⟩ := List.mem_map.mp ho
        exact fromText_of_readSource hf

end Workspace

end ModuleAtlas
