import ModuleAtlas.Graph.Snapshot
import ModuleAtlas.Proofs.Program.Growth

/-!
# The order in which sources arrive

Of several sources with one path the last that can be read counts. Where the paths differ it
makes no difference in which order the sources arrive: the program has the same files, and all
that is told of it is the same. Only its diagnostics come in the order of the sources.
-/

namespace ModuleAtlas

set_option autoImplicit false

namespace Program

section Filing

def filed (files : List SourceFile) : List SourceFile := files.foldl (fun found f => insertFile f found) []

theorem filed_concat (files : List SourceFile) (f : SourceFile) :
    filed (files ++ [f]) = insertFile f (filed files) := by
  simp [filed]

theorem ordered_filed (files : List SourceFile) :
    (filed files).Pairwise fun f g => Path.cmp f.path g.path = .lt := by
  induction files using List.reverseRecOn with
  | nil => exact .nil
  | append_singleton files f ih =>
    rw [filed_concat]
    exact ordered_insertFile f ih

theorem find?_insertFile (f : SourceFile) (files : List SourceFile) (path : Path) :
    (insertFile f files).find? (·.path.same path) = (f :: files).find? (·.path.same path) := by
  fun_induction insertFile f files with
  | case1 | case2 => rfl
  | case3 g rest hEq =>
    have hSame : f.path.same path = g.path.same path := by
      rw [Path.same, Path.same, Path.eq_of_cmpParts hEq]
    rw [List.find?_cons, List.find?_cons, List.find?_cons, ← hSame]
    cases f.path.same path <;> rfl
  | case4 g rest hGt ih =>
    rw [List.find?_cons, ih, List.find?_cons, List.find?_cons, List.find?_cons]
    cases hg : g.path.same path <;> cases hf : f.path.same path
    case true.true =>
      -- then the two files would have one path
      have hSame : f.path.same g.path = true :=
        Path.same_iff.mpr ((Path.same_iff.mp hf).trans (Path.same_iff.mp hg).symm)
      rw [Path.cmp_eq_iff_same.mpr hSame] at hGt
      cases hGt
    all_goals rfl

/-- Under a path stands the file that was put there last. -/
theorem find?_filed (files : List SourceFile) (path : Path) :
    (filed files).find? (·.path.same path) = files.reverse.find? (·.path.same path) := by
  induction files using List.reverseRecOn with
  | nil => rfl
  | append_singleton files f ih =>
    rw [filed_concat, find?_insertFile, List.reverse_concat, List.find?_cons, List.find?_cons, ih]

theorem perm_filed {files : List SourceFile} (h : files.Pairwise fun f g => f.path.same g.path = false) :
    (filed files).Perm files := by
  induction files using List.reverseRecOn with
  | nil => exact .refl _
  | append_singleton files f ih =>
    obtain ⟨hFiles, -, hNew⟩ := List.pairwise_append.mp h
    have hPerm := ih hFiles
    obtain ⟨before, after, hFiled, hInsert⟩ := exists_insertFile fun g hg =>
      hNew g (hPerm.mem_iff.mp hg) f (List.mem_singleton_self f)
    rw [filed_concat, hInsert]
    have hRest : (before ++ after).Perm files := hFiled ▸ hPerm
    exact (List.perm_middle.trans (hRest.cons f)).trans (List.perm_append_singleton f files).symm

/-- Files with different paths are filed alike in whatever order they come. -/
theorem filed_eq_of_perm {files others : List SourceFile}
    (h : files.Pairwise fun f g => f.path.same g.path = false) (hPerm : files.Perm others) :
    filed files = filed others := by
  have hOthers : others.Pairwise fun f g => f.path.same g.path = false :=
    h.perm hPerm fun {f g} hfg => by rwa [Path.same_comm]
  refine List.Perm.eq_of_pairwise (fun f g _ _ hfg hgf => ?_) (ordered_filed files) (ordered_filed others)
    (((perm_filed h).trans hPerm).trans (perm_filed hOthers).symm)
  rw [Path.cmp_eq_gt_iff.mpr hfg] at hgf
  cases hgf

end Filing

section Sources

def fileOf? (source : Path × Source) : Option SourceFile :=
  (readSource sizeLimit source.1.normalize source.2).toOption

def Distinct (sources : List (Path × Source)) : Prop :=
  sources.Pairwise fun s t => s.1.normalize.same t.1.normalize = false

instance (sources : List (Path × Source)) : Decidable (Distinct sources) :=
  inferInstanceAs (Decidable (List.Pairwise _ _))

/-- The file comes of the last source of a path that can be read. -/
def LastRead (sources : List (Path × Source)) (path : Path) (f : SourceFile) : Prop :=
  ∃ before source after, sources = before ++ source :: after ∧ source.1.normalize.same path = true ∧
    fileOf? source = some f ∧
    ∀ later ∈ after, later.1.normalize.same path = true → fileOf? later = none

theorem path_of_fileOf? {source : Path × Source} {f : SourceFile} (h : fileOf? source = some f) :
    f.path = source.1.normalize := by
  unfold fileOf? readSource at h
  split at h
  · cases h
  · cases hParse : SourceFile.parse source.1.normalize source.2 with
    | error fault =>
      rw [hParse] at h
      cases h
    | ok g =>
      rw [hParse] at h
      cases h
      exact SourceFile.path_of_parse hParse

variable (root : Path) (aliases : List Alias)

theorem files_ofSources (sources : List (Path × Source)) :
    (ofSources root sources aliases).files = filed (sources.filterMap fileOf?) := by
  induction sources using List.reverseRecOn with
  | nil => rfl
  | append_singleton sources source ih =>
    cases hRead : readSource sizeLimit source.1.normalize source.2 with
    | error fault =>
      have hNone : fileOf? source = none := by rw [fileOf?, hRead]; rfl
      rw [List.filterMap_append, List.filterMap_cons_none hNone, List.filterMap_nil, List.append_nil, ← ih]
      simp [ofSources, assemble, hRead]
    | ok f =>
      have hSome : fileOf? source = some f := by rw [fileOf?, hRead]; rfl
      rw [ofSources_concat root sources aliases hRead, List.filterMap_append, List.filterMap_cons_some hSome,
        List.filterMap_nil, filed_concat, ← ih]
      rfl

/-- Of several sources with one path the last that can be read is kept. -/
theorem file?_ofSources_iff (sources : List (Path × Source)) (path : Path) (f : SourceFile) :
    (ofSources root sources aliases).file? path = some f ↔ LastRead sources path f := by
  have hReads : ∀ source, (fileOf? source).any (·.path.same path) = true ↔
      source.1.normalize.same path = true ∧ fileOf? source ≠ none := by
    intro source
    cases hFile : fileOf? source with
    | none => simp
    | some g => simp [path_of_fileOf? hFile]
  rw [file?, files_ofSources, find?_filed, ← List.filterMap_reverse, List.find?_filterMap, Option.bind_eq_some_iff]
  constructor
  · rintro ⟨source, hFind, hFile⟩
    obtain ⟨hHit, later, earlier, hSplit, hLater⟩ := List.find?_eq_some_iff_append.mp hFind
    refine ⟨earlier.reverse, source, later.reverse, ?_, ((hReads source).mp hHit).1, hFile, ?_⟩
    · rw [← List.reverse_inj, hSplit]
      simp
    · intro s hs hSame
      by_contra hSome
      have hMiss := hLater s (List.mem_reverse.mp hs)
      rw [(hReads s).mpr ⟨hSame, hSome⟩] at hMiss
      cases hMiss
  · rintro ⟨before, source, after, rfl, hSame, hFile, hAfter⟩
    refine ⟨source, List.find?_eq_some_iff_append.mpr ⟨?_, after.reverse, before.reverse, by simp, ?_⟩, hFile⟩
    · exact (hReads source).mpr ⟨hSame, by simp [hFile]⟩
    · intro s hs
      rw [Bool.not_eq_true', Bool.eq_false_iff]
      intro hHit
      obtain ⟨hSame, hSome⟩ := (hReads s).mp hHit
      exact hSome (hAfter s (List.mem_reverse.mp hs) hSame)

theorem files_ofSources_eq {sources others : List (Path × Source)} (h : Distinct sources)
    (hPerm : sources.Perm others) :
    (ofSources root sources aliases).files = (ofSources root others aliases).files := by
  rw [files_ofSources, files_ofSources]
  refine filed_eq_of_perm (List.pairwise_filterMap.mpr (h.imp fun {s t} hst f hf g hg => ?_)) (hPerm.filterMap _)
  rwa [path_of_fileOf? hf, path_of_fileOf? hg]

theorem diagnostics_ofSources_perm {sources others : List (Path × Source)} (hPerm : sources.Perm others) :
    (ofSources root sources aliases).diagnostics.Perm (ofSources root others aliases).diagnostics :=
  (hPerm.map _).filterMap _

/-- Programs of the same sources differ at most in their diagnostics. -/
theorem ofSources_eq {sources others : List (Path × Source)} (h : Distinct sources)
    (hPerm : sources.Perm others) : ofSources root others aliases =
      { ofSources root sources aliases with diagnostics := (ofSources root others aliases).diagnostics } := by
  simp only [files_ofSources_eq root aliases h hPerm]
  rfl

end Sources

end Program

/-- The reports are equal but for their times and the order of their diagnostics. -/
structure Report.Agrees (r s : Report) : Prop where
  fields : s = { r with generatedAt := s.generatedAt, diagnostics := s.diagnostics }
  diagnostics : r.diagnostics.Perm s.diagnostics

structure Session.Agrees (s t : Session) : Prop where
  usage : s.usage = t.usage
  snapshot : s.graph.snapshot = t.graph.snapshot
  report : ∀ now later, (s.report now).Agrees (t.report later)

-- apart from its own list, only the count in the summary looks at the diagnostics of a program
theorem Session.agrees_of_perm (thresholds : Thresholds) (p : Program) {diagnostics : List Diagnostic}
    (h : p.diagnostics.Perm diagnostics) :
    (ofProgram thresholds p).Agrees (ofProgram thresholds { p with diagnostics }) := by
  refine ⟨rfl, rfl, fun now later => ?_⟩
  have hAll := h.append_right (p.files.flatMap SourceFile.duplicateDeclarations)
  refine ⟨?_, hAll⟩
  simp only [report, ofProgram, hAll.length_eq]
  rfl

namespace Program

/-- What the order of the sources does to a program: it settles which file of a path is kept, and
nothing else. -/
structure KeepsLastInAnyOrder (root : Path) (aliases : List Alias) (sources : List (Path × Source)) : Prop where
  ordered : (ofSources root sources aliases).files.Pairwise fun f g => Path.cmp f.path g.path = .lt
  kept : ∀ path f, (ofSources root sources aliases).file? path = some f ↔ LastRead sources path f
  any_order : Distinct sources → ∀ others, sources.Perm others → ∀ thresholds : Thresholds,
    (Session.ofProgram thresholds (ofSources root sources aliases)).Agrees
      (Session.ofProgram thresholds (ofSources root others aliases))

theorem ofSources_keeps_last_in_any_order (root : Path) (aliases : List Alias) (sources : List (Path × Source)) :
    KeepsLastInAnyOrder root aliases sources where
  ordered := by
    rw [files_ofSources]
    exact ordered_filed _
  kept := file?_ofSources_iff root aliases sources
  any_order := by
    intro hDistinct others hPerm thresholds
    rw [ofSources_eq root aliases hDistinct hPerm]
    exact Session.agrees_of_perm thresholds _ (diagnostics_ofSources_perm root aliases hPerm)

/-- Two files and two texts that are not programs. -/
def scattered : List (Path × Source) :=
  [(.ofString "/app/broken.js", .ofString "function ("),
    (.ofString "/app/main.js", .ofString "import { helper } from './lib/util';\nhelper();\n"),
    (.ofString "/app/lib/./util.js", .ofString "export function helper() {}\nexport function spare() {}\n"),
    (.ofString "/app/torn.js", .ofString "let = ;")]

/-- One path three times, the last time with a text that is not a program. -/
def rewritten : List (Path × Source) :=
  [(.ofString "/app/a.js", .ofString "export function first() {}\n"),
    (.ofString "/app/b/../a.js", .ofString "export function second() {}\n"),
    (.ofString "/app/./a.js", .ofString "function (")]

set_option maxRecDepth 100000 in
theorem scattered_kept_in_any_order :
    (Distinct scattered ∧ (ofSources (.ofString "/app") scattered []).size = 2 ∧
      (ofSources (.ofString "/app") scattered []).diagnostics ≠
        (ofSources (.ofString "/app") scattered.reverse []).diagnostics) ∧
    (Session.ofProgram ⟨10, 3⟩ (ofSources (.ofString "/app") scattered [])).Agrees
      (Session.ofProgram ⟨10, 3⟩ (ofSources (.ofString "/app") scattered.reverse [])) ∧
    ∃ f, LastRead rewritten (.ofString "/app/a.js") f ∧ f.entities.map Entity.name = ["second"] := by
  have hFacts : Distinct scattered ∧ (ofSources (.ofString "/app") scattered []).size = 2 ∧
      (ofSources (.ofString "/app") scattered []).diagnostics ≠
        (ofSources (.ofString "/app") scattered.reverse []).diagnostics := by
    decide +kernel
  have hKept : ((ofSources (.ofString "/app") rewritten []).file? (.ofString "/app/a.js")).map
      (·.entities.map Entity.name) = some ["second"] := by
    decide +kernel
  refine ⟨hFacts, ?_, ?_⟩
  · exact (ofSources_keeps_last_in_any_order _ _ scattered).any_order hFacts.1 _ (List.reverse_perm _).symm _
  · obtain ⟨f, hFound, hNames⟩ := Option.map_eq_some_iff.mp hKept
    exact ⟨f, ((ofSources_keeps_last_in_any_order _ _ rewritten).kept _ f).mp hFound, hNames⟩

end Program

end ModuleAtlas
