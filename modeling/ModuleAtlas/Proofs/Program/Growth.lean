import ModuleAtlas.Proofs.Program.Imports
import Mathlib.Data.List.Flatten

/-!
# Programs that gain a file

A file with a new path is put between the others and changes none of them. As long as what
resolved resolves to the same files, and no file binds a name twice, names that occurred still
occur. So nothing that was used becomes unused.
-/

namespace ModuleAtlas

set_option autoImplicit false

namespace SourceFile

/-- No two things that import statements ask for are bound to one name. -/
def BindsOnce (f : SourceFile) : Prop :=
  ((f.imports.filter (·.form == .statement)).flatMap Import.bindings).Nodup

instance (f : SourceFile) : Decidable f.BindsOnce := inferInstanceAs (Decidable (List.Nodup _))

theorem eq_of_mem_flatMap {α β : Type} {xs : List α} {F : α → List β} (h : (xs.flatMap F).Nodup)
    {x y : α} {b : β} (hx : x ∈ xs) (hy : y ∈ xs) (hbx : b ∈ F x) (hby : b ∈ F y) : x = y := by
  obtain ⟨-, hDisjoint⟩ := List.nodup_flatMap.mp h
  have hSymm : Std.Symm (Function.onFun List.Disjoint F) := ⟨fun _ _ hxy _ hbx hby => hxy hby hbx⟩
  by_contra hNe
  exact hDisjoint.forall hx hy hNe hbx hby

theorem BindsOnce.eq_of_binding {f : SourceFile} (h : f.BindsOnce) {i j : Import} {s t : Specifier}
    {name : String} (hi : i ∈ f.imports) (hj : j ∈ f.imports) (hiForm : i.form = .statement)
    (hjForm : j.form = .statement) (hs : s ∈ i.specifiers) (ht : t ∈ j.specifiers)
    (hsName : s.binding? = some name) (htName : t.binding? = some name) : i = j ∧ s = t := by
  have hBinds : ∀ {i : Import} {s : Specifier}, s ∈ i.specifiers → s.binding? = some name →
      name ∈ i.bindings := fun hs hsName => List.mem_filterMap.mpr ⟨_, hs, hsName⟩
  have hiMem : i ∈ f.imports.filter (·.form == .statement) := List.mem_filter.mpr ⟨hi, by simp [hiForm]⟩
  have hjMem : j ∈ f.imports.filter (·.form == .statement) := List.mem_filter.mpr ⟨hj, by simp [hjForm]⟩
  obtain rfl := eq_of_mem_flatMap h hiMem hjMem (hBinds hs hsName) (hBinds ht htName)
  have hOnce := (List.nodup_flatMap.mp h).1 i hiMem
  rw [Import.bindings, List.filterMap_eq_flatMap_toList] at hOnce
  exact ⟨rfl, eq_of_mem_flatMap hOnce hs ht (Option.mem_toList.mpr hsName) (Option.mem_toList.mpr htName)⟩

end SourceFile

namespace Program

def withFile (p : Program) (q : SourceFile) : Program := { p with files := insertFile q p.files }

def Lacks (p : Program) (path : Path) : Prop := ∀ f ∈ p.files, f.path.same path = false

instance (p : Program) (path : Path) : Decidable (p.Lacks path) :=
  inferInstanceAs (Decidable (∀ f ∈ p.files, _))

/-- What an import stands for in one program it stands for in the other. -/
def KeepsTargets (p later : Program) : Prop :=
  ∀ f ∈ p.files, ∀ i ∈ f.imports, p.resolve f.path i.source ≠ none →
    later.resolve f.path i.source = p.resolve f.path i.source

instance (p later : Program) : Decidable (p.KeepsTargets later) :=
  inferInstanceAs (Decidable (∀ f ∈ p.files, _))

theorem ofSources_concat (root : Path) (sources : List (Path × Source)) (aliases : List Alias)
    {source : Path × Source} {q : SourceFile}
    (h : readSource sizeLimit source.1.normalize source.2 = .ok q) :
    ofSources root (sources ++ [source]) aliases = (ofSources root sources aliases).withFile q := by
  simp [ofSources, assemble, withFile, h]

theorem exists_insertFile {q : SourceFile} {files : List SourceFile}
    (h : ∀ f ∈ files, f.path.same q.path = false) :
    ∃ before after, files = before ++ after ∧ insertFile q files = before ++ q :: after := by
  fun_induction insertFile q files with
  | case1 => exact ⟨[], [], rfl, rfl⟩
  | case2 g rest hLt => exact ⟨[], g :: rest, rfl, rfl⟩
  | case3 g rest hEq =>
    have hSame := Path.cmp_eq_iff_same.mp hEq
    rw [Path.same_comm, h g List.mem_cons_self] at hSame
    cases hSame
  | case4 g rest hGt ih =>
    obtain ⟨before, after, hRest, hInsert⟩ := ih fun f hf => h f (List.mem_cons_of_mem _ hf)
    exact ⟨g :: before, after, by rw [hRest]; rfl, by rw [hInsert]; rfl⟩

theorem binding?_of_declaredAs? {p : Program} {g : SourceFile} {i : Import} {s : Specifier}
    {binding declared : String} (h : p.declaredAs? g i s = some (binding, declared)) :
    s.binding? = some binding := by
  rcases declaredAs?_eq_some h with rfl | ⟨rfl, -⟩ <;> rfl

section Growth

variable {p : Program} {q g : SourceFile} (hNew : p.Lacks q.path)

include hNew

theorem mem_withFile {f : SourceFile} : f ∈ (p.withFile q).files ↔ f = q ∨ f ∈ p.files := by
  obtain ⟨before, after, hFiles, hInsert⟩ := exists_insertFile hNew
  rw [withFile, hInsert, hFiles]
  grind

theorem file?_withFile {path : Path} (h : path ∈ p.paths) : (p.withFile q).file? path = p.file? path := by
  obtain ⟨before, after, hFiles, hInsert⟩ := exists_insertFile hNew
  obtain ⟨f, hf, rfl⟩ := List.mem_map.mp h
  have hOther : q.path.same f.path = false := by rw [Path.same_comm, hNew f hf]
  simp only [file?, withFile, hInsert]
  rw [hFiles, List.find?_append, List.find?_append, List.find?_cons_of_neg (by simp [hOther])]

variable (hKeeps : p.KeepsTargets (p.withFile q)) (hg : g ∈ p.files)

include hKeeps hg

theorem declaredAs?_withFile {i : Import} {s : Specifier} {b : String × String} (hi : i ∈ g.imports)
    (h : p.declaredAs? g i s = some b) : (p.withFile q).declaredAs? g i s = some b := by
  obtain ⟨binding, declared⟩ := b
  rcases declaredAs?_eq_some h with rfl | ⟨rfl, hDefault⟩
  · exact h
  · obtain ⟨f, hFile, -⟩ := Option.bind_eq_some_iff.mp hDefault
    obtain ⟨path, hPath, -⟩ := Option.bind_eq_some_iff.mp hFile
    have hTarget : (p.withFile q).resolve g.path i.source = some path := by
      rw [hKeeps g hg i hi (by simp [hPath]), hPath]
    have hSame : ((p.withFile q).resolve g.path i.source).bind (p.withFile q).file? =
        (p.resolve g.path i.source).bind p.file? := by
      rw [hTarget, hPath, Option.bind_some, Option.bind_some, file?_withFile hNew (mem_paths_of_resolve hPath)]
    rw [← h, declaredAs?, declaredAs?, hSame]

theorem declaredName?_withFile (hOnce : g.BindsOnce) {binding declared : String}
    (h : declaredName? (p.symbolBindings g) binding = some declared) :
    declaredName? ((p.withFile q).symbolBindings g) binding = some declared := by
  obtain ⟨i, hi, hForm, s, hs, hAs⟩ := mem_symbolBindings.mp (mem_of_declaredName? h)
  have hStill := declaredAs?_withFile hNew hKeeps hg hi hAs
  refine declaredName?_eq_some (mem_symbolBindings.mpr ⟨i, hi, hForm, s, hs, hStill⟩) fun d hd => ?_
  -- no other specifier has the binding, so none can overwrite it
  obtain ⟨j, hj, hjForm, t, ht, hOther⟩ := mem_symbolBindings.mp hd
  obtain ⟨rfl, rfl⟩ := hOnce.eq_of_binding hi hj hForm hjForm hs ht (binding?_of_declaredAs? hStill)
    (binding?_of_declaredAs? hOther)
  rw [hStill] at hOther
  cases hOther
  rfl

theorem occurs_withFile (hOnce : g.BindsOnce) {name : String} (h : p.Occurs g name) :
    (p.withFile q).Occurs g name := by
  obtain ⟨m, hm, hName, hText | hDeclared⟩ := h
  · exact ⟨m, hm, hName, .inl hText⟩
  · exact ⟨m, hm, hName, .inr (declaredName?_withFile hNew hKeeps hg hOnce hDeclared)⟩

end Growth

section Unused

variable {p : Program} {q : SourceFile} (hNew : p.Lacks q.path) (hKeeps : p.KeepsTargets (p.withFile q))
  (hOnce : ∀ g ∈ p.files, g.BindsOnce)

include hNew hKeeps hOnce

theorem unused_of_withFile {f : SourceFile} {e : Entity} (h : (p.withFile q).Unused f e) : p.Unused f e := by
  refine ⟨fun g hg hOther hOccurs => ?_, h.2⟩
  have hStill := occurs_withFile hNew hKeeps hg (hOnce g hg) hOccurs
  exact h.1 g ((mem_withFile hNew).mpr (.inr hg)) hOther hStill

theorem listed_withFile_sublist {α : Type} (ofKind : Entity → Prop) [DecidablePred ofKind]
    (record : SourceFile → Entity → α) (file : α → Path) (hFile : ∀ f e, file (record f e) = f.path) :
    List.Sublist
      (((p.withFile q).files.flatMap fun f =>
        (f.entities.filter fun e => ofKind e ∧ (p.withFile q).Unused f e).map (record f)).filter
          fun u => !(file u).same q.path)
      (p.files.flatMap fun f => (f.entities.filter fun e => ofKind e ∧ p.Unused f e).map (record f)) := by
  -- without the new file the lists differ only in what counts as unused
  have hOld : (p.files.flatMap fun f =>
      (f.entities.filter fun e => ofKind e ∧ (p.withFile q).Unused f e).map (record f)).Sublist
        (p.files.flatMap fun f => (f.entities.filter fun e => ofKind e ∧ p.Unused f e).map (record f)) := by
    refine List.Sublist.flatMap_right _ fun f _ => (List.monotone_filter_right _ fun e he => ?_).map _
    have hListed := of_decide_eq_true he
    exact decide_eq_true ⟨hListed.1, unused_of_withFile hNew hKeeps hOnce hListed.2⟩
  refine List.Sublist.trans ?_ hOld
  obtain ⟨before, after, hFiles, hInsert⟩ := exists_insertFile hNew
  have hAll : (p.withFile q).files = before ++ q :: after := hInsert
  have hOwn : ((q.entities.filter fun e => ofKind e ∧ (p.withFile q).Unused q e).map (record q)).filter
      (fun u => !(file u).same q.path) = [] := by
    refine List.filter_eq_nil_iff.mpr fun u hu => ?_
    obtain ⟨e, -, rfl⟩ := List.mem_map.mp hu
    simp [hFile]
  rw [hAll, List.flatMap_append, List.flatMap_cons, List.filter_append, List.filter_append, hOwn, List.nil_append,
    ← List.filter_append, ← List.flatMap_append, ← hFiles]
  exact List.filter_sublist

end Unused

end Program

/-- What is listed as unused in a program with one more file was listed before, the new file's own apart. -/
structure Report.NothingNewlyUnused (p : Program) (q : SourceFile) (before after : Report) : Prop where
  unused : ∀ f ∈ p.files, ∀ e ∈ f.entities, (p.withFile q).Unused f e → p.Unused f e
  records : ∀ f ∈ p.files, ∀ e ∈ f.entities, after.Records f e → before.Records f e
  functions : (after.unusedFunctions.filter fun u => !u.file.same q.path).Sublist before.unusedFunctions
  components : (after.unusedComponents.filter fun u => !u.file.same q.path).Sublist before.unusedComponents
  deadCode : (after.deadCode.filter fun u => !u.file.same q.path).Sublist before.deadCode

namespace Program

/-- A file with a new path makes nothing unused. -/
theorem nothing_newly_unused {p : Program} {q : SourceFile} (hNew : p.Lacks q.path)
    (hKeeps : p.KeepsTargets (p.withFile q)) (hOnce : ∀ g ∈ p.files, g.BindsOnce) (thresholds : Thresholds)
    (generatedAt : Timestamp) :
    Report.NothingNewlyUnused p q ((Session.ofProgram thresholds p).report generatedAt)
      ((Session.ofProgram thresholds (p.withFile q)).report generatedAt) := by
  have hBefore := p.listsUnused thresholds generatedAt
  have hAfter := (p.withFile q).listsUnused thresholds generatedAt
  constructor
  case unused => exact fun f _ e _ h => unused_of_withFile hNew hKeeps hOnce h
  case records =>
    intro f hf e _ hRecords
    obtain ⟨f', hf', e', he', hUnused, hPath, hFields⟩ := hAfter.records_iff.mp hRecords
    rcases (mem_withFile hNew).mp hf' with rfl | hf'
    · have hOther := hNew f hf
      rw [← hPath, Path.same_self] at hOther
      cases hOther
    · exact hBefore.records_iff.mpr
        ⟨f', hf', e', he', unused_of_withFile hNew hKeeps hOnce hUnused, hPath, hFields⟩
  case functions =>
    rw [hBefore.functions, hAfter.functions]
    exact listed_withFile_sublist hNew hKeeps hOnce _ _ UnusedFunction.file fun _ _ => rfl
  case components =>
    rw [hBefore.components, hAfter.components]
    exact listed_withFile_sublist hNew hKeeps hOnce _ _ UnusedFunction.file fun _ _ => rfl
  case deadCode =>
    rw [hBefore.deadCode, hAfter.deadCode]
    exact listed_withFile_sublist hNew hKeeps hOnce _ _ DeadCode.file fun _ _ => rfl

def settledTexts : List (Path × Source) :=
  [(.ofString "/app/f.js", .ofString
      "export function helper() {}\nexport function spare() {}\nexport function kept() {}\n"),
    (.ofString "/app/g.js", .ofString
      "import Thing from './late';\nimport { kept as other } from './f';\nThing(other);\n")]

/-- Two files, the second of which imports one that is still missing. -/
def settled : Program := ofSources (.ofString "/app") settledTexts []

def lateText : Path × Source :=
  (.ofString "/app/late.js", .ofString "export default function helper() {}\n")

/-- The missing file; its default export has the name of a function that was unused. -/
def late : SourceFile := (readSource sizeLimit lateText.1.normalize lateText.2).toOption.getD default

theorem eq_ok_of_isSome {ε α : Type} {x : Except ε α} (a : α) (h : x.toOption.isSome = true) :
    x = .ok (x.toOption.getD a) := by
  cases x with
  | error e => cases h
  | ok b => rfl

set_option maxRecDepth 100000 in
theorem late_parsed : readSource sizeLimit lateText.1.normalize lateText.2 = .ok late :=
  eq_ok_of_isSome default (by decide +kernel)

set_option maxRecDepth 100000 in
theorem settled_nothing_newly_unused :
    ofSources (.ofString "/app") (settledTexts ++ [lateText]) [] = settled.withFile late ∧
    (settled.Lacks late.path ∧ settled.KeepsTargets (settled.withFile late) ∧
      (∀ g ∈ settled.files, g.BindsOnce) ∧
      (settled.files.flatMap fun f => (f.entities.filter fun e => settled.Unused f e).map Entity.name) =
        ["helper", "spare"] ∧
      (settled.files.flatMap fun f =>
        (f.entities.filter fun e => (settled.withFile late).Unused f e).map Entity.name) = ["spare"]) ∧
    Report.NothingNewlyUnused settled late ((Session.ofProgram ⟨10, 3⟩ settled).report ⟨0, 0⟩)
      ((Session.ofProgram ⟨10, 3⟩ (settled.withFile late)).report ⟨0, 0⟩) := by
  refine ⟨ofSources_concat _ _ _ late_parsed, (and_iff_left_of_imp ?follows).mpr ?facts⟩
  case facts => decide +kernel
  case follows =>
    rintro ⟨hNew, hKeeps, hOnce, -⟩
    exact nothing_newly_unused hNew hKeeps hOnce _ _

end Program

end ModuleAtlas
