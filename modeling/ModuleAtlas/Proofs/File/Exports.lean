import ModuleAtlas.Proofs.File.Declarations

/-!
# Exports of entities

An exported entity is found by reading a statement for what it declares, and an export by
reading the same statement for what it gives away. The two readings name the same things, one
case apart: a value exported by default is looked at under its wrappers for the entity and as it
stands for the export, so that a wrapped function or class has a name only as an entity.
-/

namespace ModuleAtlas

set_option autoImplicit false

/-- The export is that of the entity: of its name, of this file and by default just if the entity is. -/
structure Export.Records (x : Export) (e : Entity) : Prop where
  name : x.name = e.name
  own : x.source = none
  byDefault : x.isDefault = e.isDefaultExport

instance (x : Export) (e : Entity) : Decidable (x.Records e) :=
  decidable_of_iff (x.name = e.name ∧ x.source = none ∧ x.isDefault = e.isDefaultExport)
    ⟨fun h => ⟨h.1, h.2.1, h.2.2⟩, fun h => ⟨h.name, h.own, h.byDefault⟩⟩

namespace Node

/-- The statement exports a value that stands in parentheses or type assertions. -/
def wrapsValue (n : Node) : Bool :=
  (n.child? .declaration).isNone && (n.child? .value).any (·.kind.isWrapper)

section Statements

variable {n outer decl value : Node} {lines : LineTable} {bindings : List String}
  {standing : Standing} {e : Entity}

theorem unwrapped_of_not_wrapper (h : n.kind.isWrapper = false) : n.unwrapped = n := by
  cases n with
  | leaf => rfl
  | branch => exact if_neg (Bool.eq_false_iff.mp h)

theorem valueExport_of_wrapper (h : n.kind.isWrapper = true) : n.valueExport.1 = "default" := by
  unfold valueExport
  dsimp only
  split
  case h_1 hKind | h_2 hKind | h_3 hKind | h_4 hKind =>
    rw [hKind] at h
    cases h
  case h_5 => rfl

theorem valueExport_of_mem_valueDeclarations {x : Declaration} (hx : x ∈ valueDeclarations outer value) :
    value.unwrapped.valueExport.1 = x.token.text := by
  unfold valueDeclarations at hx
  split at hx
  case h_1 hKind | h_2 hKind | h_3 hKind =>
    obtain ⟨c, hc, rfl⟩ := Option.map_eq_some_iff.mp (Option.mem_toList.mp hx)
    simp [valueExport, hKind, hc]
  case h_4 => cases hx

/-- The entity of a value is named as the export of the unwrapped value is. -/
theorem mem_valueEntities (he : e ∈ valueEntities lines bindings outer value) :
    e.isDefaultExport = true ∧ value.unwrapped.valueExport.1 = e.name := by
  obtain ⟨x, hx, kind, body, rfl⟩ := exists_declaration_of_mem_valueEntities he
  exact ⟨rfl, valueExport_of_mem_valueDeclarations hx⟩

theorem valueExport_eq_iff (he : e ∈ valueEntities lines bindings outer value) :
    value.valueExport.1 = e.name ↔ value.kind.isWrapper = false ∨ e.name = "default" := by
  have hInner := (mem_valueEntities he).2
  cases hWrapper : value.kind.isWrapper with
  | false =>
    rw [unwrapped_of_not_wrapper hWrapper] at hInner
    simp [hInner]
  | true => simp [valueExport_of_wrapper hWrapper, eq_comm]

theorem kind_of_exported (he : e ∈ n.statementEntities lines bindings) (hExported : e.exported = true) :
    n.kind = .exportStatement := by
  obtain ⟨-, he⟩ | ⟨hKind, -⟩ | ⟨hKind, -⟩ := statementEntities_cases he
  · obtain ⟨x, -, kind, body, rfl⟩ := exists_declaration_of_mem_declaredEntities he
    cases hExported
  · exact hKind
  · exact hKind

/-- A statement records its entity, unless the entity is one of a wrapped value. -/
theorem records_iff (hKind : n.kind = .exportStatement) (he : e ∈ n.statementEntities lines bindings) :
    (∃ x ∈ n.statementExports lines, x.Records e) ↔ n.wrapsValue = false ∨ e.name = "default" := by
  obtain ⟨hOther, -⟩ | ⟨-, decl, hDecl, he⟩ | ⟨-, value, hDecl, hValue, he⟩ := statementEntities_cases he
  · exact absurd hKind hOther
  -- A declaration is read alike on both sides; under the wrappers of a value only one side looks.
  · obtain ⟨kind, hName⟩ := exists_declaredName he
    have hDefault : n.hasSymbol "default" = e.isDefaultExport := by
      rw [(mem_declaredEntities he).1]
      cases n.hasSymbol "default" <;> rfl
    have hRecord := List.mem_map_of_mem (f := fun x : String × ExportKind =>
      (⟨x.1, x.2, n.hasSymbol "default", lines.lineAt n.start, none⟩ : Export)) hName
    rw [← statementExports_of_declaration hDecl] at hRecord
    exact iff_of_true ⟨_, hRecord, rfl, rfl, hDefault⟩ (.inl (by simp [wrapsValue, hDecl]))
  · have hWraps : n.wrapsValue = value.kind.isWrapper := by simp [wrapsValue, hDecl, hValue]
    rw [statementExports_of_value hDecl hValue, hWraps, ← valueExport_eq_iff he]
    constructor
    · rintro ⟨x, hx, hRecords⟩
      rw [List.mem_singleton.mp hx] at hRecords
      exact hRecords.name
    · intro hName
      exact ⟨_, List.mem_singleton_self _, hName, rfl, (mem_valueEntities he).1.symm⟩

theorem isDefaultExport_of_wrapsValue (hKind : n.kind = .exportStatement)
    (he : e ∈ n.statementEntities lines bindings) (hWraps : n.wrapsValue = true) :
    e.isDefaultExport = true := by
  obtain ⟨hOther, -⟩ | ⟨-, decl, hDecl, -⟩ | ⟨-, value, -, -, he⟩ := statementEntities_cases he
  · exact absurd hKind hOther
  · simp [wrapsValue, hDecl] at hWraps
  · exact (mem_valueEntities he).1

theorem exists_default_of_wrapsValue (lines : LineTable) (hWraps : n.wrapsValue = true) :
    ∃ x ∈ n.statementExports lines, x.isDefault = true ∧ x.name = "default" := by
  rw [wrapsValue, Bool.and_eq_true, Option.isNone_iff_eq_none] at hWraps
  obtain ⟨hDecl, hWraps⟩ := hWraps
  cases hValue : n.child? .value with
  | none => simp [hValue] at hWraps
  | some value =>
    rw [statementExports_of_value hDecl hValue]
    exact ⟨_, List.mem_singleton_self _, rfl, valueExport_of_wrapper (by simpa [hValue] using hWraps)⟩

end Statements

end Node

namespace SourceFile

variable {f : SourceFile} {lines : LineTable} {n : Node} {e : Entity}

/-- The entity is one of an export statement at the top of the file. -/
structure Exports (f : SourceFile) (lines : LineTable) (n : Node) (e : Entity) : Prop where
  top : n ∈ f.tree.namedChildren
  kind : n.kind = .exportStatement
  entity : e ∈ n.statementEntities lines f.bindings

/-- What the file holds is what its tree says. -/
structure Reads (f : SourceFile) (lines : LineTable) : Prop where
  exports : f.exports = f.tree.exports lines
  entities : f.entities = f.tree.entities lines f.bindings

theorem exists_ofTree_of_parse {path : Path} {source : Source} (h : parse path source = .ok f) :
    ∃ language tree, f = ofTree path language (.ofSource source) tree := by
  obtain ⟨language, tree, -, hf⟩ := exists_of_parse h
  exact ⟨language, tree, hf⟩

theorem reads_of_parse {path : Path} {source : Source} (h : parse path source = .ok f) :
    f.Reads (.ofSource source) := by
  obtain ⟨language, tree, rfl⟩ := exists_ofTree_of_parse h
  exact ⟨rfl, rfl⟩

theorem Reads.exists_exports (h : f.Reads lines) (he : e ∈ f.entities) (hExported : e.exported = true) :
    ∃ n, f.Exports lines n e := by
  rw [h.entities] at he
  obtain ⟨n, hn, he⟩ := List.mem_flatMap.mp he
  exact ⟨n, hn, Node.kind_of_exported he hExported, he⟩

theorem Reads.exports_subset (h : f.Reads lines) (hExports : f.Exports lines n e) :
    n.statementExports lines ⊆ f.exports := by
  intro x hx
  rw [h.exports]
  exact List.mem_flatMap_of_mem (List.mem_filter.mpr ⟨hExports.top, beq_iff_eq.mpr hExports.kind⟩) hx

theorem Reads.exists_records (h : f.Reads lines) (hExports : f.Exports lines n e)
    (hWraps : n.wrapsValue = false) : ∃ x ∈ f.exports, x.Records e := by
  obtain ⟨x, hx, hRecords⟩ := (Node.records_iff hExports.kind hExports.entity).mpr (.inl hWraps)
  exact ⟨x, h.exports_subset hExports hx, hRecords⟩

theorem defaultExport?_of_sole {x : Export} (h : f.exports.filter Export.isDefault = [x]) :
    f.defaultExport? = if x.name = "default" then none else some x.name := by
  have hFind : f.defaultExport? = ([x].find? (·.name != "default")).map Export.name := by
    rw [defaultExport?, ← h, List.find?_filter]
    simp only [Bool.decide_and, Bool.decide_eq_true]
  by_cases hName : x.name = "default" <;> simp [hFind, hName]

theorem Reads.sole_name (h : f.Reads lines) (hExports : f.Exports lines n e)
    (hDefault : e.isDefaultExport = true) {x : Export} (hSole : f.exports.filter Export.isDefault = [x]) :
    x.name = if n.wrapsValue = true then "default" else e.name := by
  have hOnly : ∀ y ∈ f.exports, y.isDefault = true → y = x := fun y hy hDefault =>
    List.mem_singleton.mp (hSole ▸ List.mem_filter.mpr ⟨hy, hDefault⟩)
  cases hWraps : n.wrapsValue with
  | true =>
    obtain ⟨y, hy, hDefault, hName⟩ := Node.exists_default_of_wrapsValue lines hWraps
    rw [if_pos rfl, ← hOnly y (h.exports_subset hExports hy) hDefault, hName]
  | false =>
    obtain ⟨y, hy, hRecords⟩ := h.exists_records hExports hWraps
    rw [if_neg Bool.false_ne_true, ← hOnly y hy (hRecords.byDefault.trans hDefault), hRecords.name]

/-- How the exports of a file speak of its exported entities. -/
structure RecordsExported (f : SourceFile) (lines : LineTable) : Prop where
  /-- The statement of an exported entity records it, unless the entity is one of a wrapped value. -/
  stated : ∀ e ∈ f.entities, e.exported = true → ∃ n, f.Exports lines n e ∧
    n.statementExports lines ⊆ f.exports ∧
      ((∃ x ∈ n.statementExports lines, x.Records e) ↔ n.wrapsValue = false ∨ e.name = "default")
  /-- All exported entities of a file without wrapped values are recorded. -/
  bare : (∀ n ∈ f.tree.namedChildren, n.wrapsValue = false) →
    ∀ e ∈ f.entities, e.exported = true → ∃ x ∈ f.exports, x.Records e
  /-- An entity that is not exported by default is recorded in any file. -/
  named : ∀ e ∈ f.entities, e.exported = true → e.isDefaultExport = false → ∃ x ∈ f.exports, x.Records e
  /-- The name of the default export, where there is one of them. -/
  sole : ∀ x n e, f.exports.filter Export.isDefault = [x] → f.Exports lines n e → e.isDefaultExport = true →
    f.defaultExport? = if n.wrapsValue = true ∨ e.name = "default" then none else some e.name

theorem exports_record_exported {path : Path} {source : Source} (h : parse path source = .ok f) :
    f.RecordsExported (.ofSource source) := by
  have hReads := reads_of_parse h
  constructor
  case stated =>
    intro e he hExported
    obtain ⟨n, hExports⟩ := hReads.exists_exports he hExported
    exact ⟨n, hExports, hReads.exports_subset hExports, Node.records_iff hExports.kind hExports.entity⟩
  case bare =>
    intro hBare e he hExported
    obtain ⟨n, hExports⟩ := hReads.exists_exports he hExported
    exact hReads.exists_records hExports (hBare n hExports.top)
  case named =>
    intro e he hExported hNamed
    obtain ⟨n, hExports⟩ := hReads.exists_exports he hExported
    refine hReads.exists_records hExports (Bool.eq_false_iff.mpr fun hWraps => ?_)
    have hDefault := Node.isDefaultExport_of_wrapsValue hExports.kind hExports.entity hWraps
    exact Bool.noConfusion (hNamed.symm.trans hDefault)
  case sole =>
    intro x n e hSole hExports hDefault
    rw [defaultExport?_of_sole hSole, hReads.sole_name hExports hDefault hSole]
    cases n.wrapsValue <;> simp

theorem exists_parsed (path : Path) (source : Source) {P : SourceFile → Prop} [DecidablePred P]
    (h : (parse path source).toOption.any (fun f => decide (P f)) = true) :
    ∃ f, parse path source = .ok f ∧ P f := by
  cases hParse : parse path source with
  | error fault => simp [hParse, Except.toOption] at h
  | ok f => exact ⟨f, rfl, by simpa [hParse, Except.toOption] using h⟩

/-- Exports by default, of several declarators and of a clause. -/
def manyExports : Source :=
  .ofString "export default class Foo {}\nexport const a = 1, b = () => 2;\nconst c = a;\nexport { c as d };\n"

set_option maxRecDepth 100000 in
theorem many_exports_recorded : ∃ f, parse (.ofString "/app/a.js") manyExports = .ok f ∧
    ((f.entities.filter Entity.exported).map Entity.name = ["Foo", "a", "b"] ∧
      (f.exports.filter Export.isDefault).length = 1 ∧ f.defaultExport? = some "Foo" ∧
      ∀ n ∈ f.tree.namedChildren, n.wrapsValue = false) ∧ f.RecordsExported (.ofSource manyExports) :=
  Exists.imp (fun _ h => ⟨h.1, h.2, exports_record_exported h.1⟩)
    (exists_parsed (.ofString "/app/a.js") manyExports (by decide +kernel))

set_option maxRecDepth 100000 in
/-- The only default export is a function with a name, which the exports do not know. -/
theorem wrapped_default_unrecorded : ∃ f,
    parse (.ofString "/app/a.js") (.ofString "export default (function Foo() { return 1; });\n") = .ok f ∧
    (f.exports.filter Export.isDefault).length = 1 ∧ f.defaultExport? = none ∧
    ∃ e ∈ f.entities, e.name = "Foo" ∧ e.exported = true ∧ e.isDefaultExport = true ∧
      ∀ x ∈ f.exports, ¬ x.Records e :=
  exists_parsed _ _ (by decide +kernel)

end SourceFile

end ModuleAtlas
