import ModuleAtlas.Report.Basic
import ModuleAtlas.Proofs.Graph.Built
import ModuleAtlas.Proofs.Path.Order
import ModuleAtlas.Proofs.Syntax.Nodes
import ModuleAtlas.Proofs.Collection

/-!
# What makes an entity unused

A name occurs in a file if a name token of its tree has it, or is bound by an import
statement to it. A report lists exactly the entities whose name occurs in no other file and
whose tokens in their own file all start inside the declaration.
-/

namespace ModuleAtlas

set_option autoImplicit false

namespace Path

theorem any_insertInto {P : Path → Bool} (hP : ∀ q r, q.same r = true → P q = P r) (p : Path)
    (paths : List Path) : (p.insertInto paths).any P = (P p || paths.any P) := by
  fun_induction insertInto p paths with
  | case1 => rfl
  | case2 q rest hCmp => rfl
  | case3 q rest hCmp =>
    rw [hP p q (cmp_eq_iff_same.mp hCmp), List.any_cons, ← Bool.or_assoc, Bool.or_self]
  | case4 q rest hCmp ih => rw [List.any_cons, ih, List.any_cons, Bool.or_left_comm]

theorem any_foldl_insertInto {P : Path → Bool} (hP : ∀ q r, q.same r = true → P q = P r)
    (paths known : List Path) :
    (paths.foldl (fun known p => p.insertInto known) known).any P = (known.any P || paths.any P) := by
  induction paths generalizing known with
  | nil => simp
  | cons p paths ih =>
    rw [List.foldl_cons, ih, any_insertInto hP, List.any_cons]
    cases P p <;> simp

end Path

namespace Program

def Occurs (p : Program) (g : SourceFile) (name : String) : Prop :=
  ∃ m ∈ g.tree.nodes, m.isName = true ∧
    (m.text = name ∨ declaredName? (p.symbolBindings g) m.text = some name)

/-- The name of an entity occurs in no other file, and in its own only inside the declaration. -/
def Unused (p : Program) (f : SourceFile) (e : Entity) : Prop :=
  (∀ g ∈ p.files, g.path.same f.path = false → ¬ p.Occurs g e.name) ∧
    ∀ m ∈ f.tree.nodes, m.isName = true → m.text = e.name →
      e.span.start ≤ m.start ∧ m.start < e.span.stop

instance (p : Program) (g : SourceFile) (name : String) : Decidable (p.Occurs g name) :=
  inferInstanceAs (Decidable (∃ m ∈ g.tree.nodes, _))

instance (p : Program) (f : SourceFile) (e : Entity) : Decidable (p.Unused f e) :=
  inferInstanceAs (Decidable (_ ∧ _))

theorem mem_names {p : Program} {g : SourceFile} {name : String} :
    name ∈ p.names g ↔ p.Occurs g name := by
  have hTokens : ∀ text, text ∈ Text.setOf (g.tree.tokens.map Node.Token.text) ↔
      ∃ m ∈ g.tree.nodes, m.isName = true ∧ m.text = text := by
    simp [Text.mem_setOf, Node.tokens_eq, and_assoc]
  simp only [names, Text.mem_setOf, List.mem_append, List.mem_filterMap, hTokens, Occurs]
  constructor
  · rintro (⟨m, hm, hName, hText⟩ | ⟨text, ⟨m, hm, hName, rfl⟩, hDeclared⟩)
    · exact ⟨m, hm, hName, .inl hText⟩
    · exact ⟨m, hm, hName, .inr hDeclared⟩
  · rintro ⟨m, hm, hName, hText | hDeclared⟩
    · exact .inl ⟨m, hm, hName, hText⟩
    · exact .inr ⟨m.text, ⟨m, hm, hName, rfl⟩, hDeclared⟩

theorem any_flatMap_names {p : Program} {name : String} {P : Path → Bool} :
    (((p.files.flatMap fun f => (p.names f).map (·, f.path)).filter (·.1 == name)).map Prod.snd).any P = true ↔
      ∃ g ∈ p.files, P g.path = true ∧ p.Occurs g name := by
  simp only [List.any_eq_true, List.mem_map, List.mem_filter, List.mem_flatMap, beq_iff_eq]
  constructor
  · rintro ⟨_, ⟨_, ⟨⟨g, hg, _, hMem, rfl⟩, rfl⟩, rfl⟩, hP⟩
    exact ⟨g, hg, hP, mem_names.mp hMem⟩
  · rintro ⟨g, hg, hP, hOccurs⟩
    exact ⟨g.path, ⟨(name, g.path), ⟨⟨g, hg, name, mem_names.mpr hOccurs, rfl⟩, rfl⟩, rfl⟩, hP⟩

/-- A look-up gives the files in which the name occurs, up to how their paths are written. -/
theorem any_filesOf_usage {p : Program} {name : String} {P : Path → Bool}
    (hP : ∀ q r, q.same r = true → P q = P r) :
    (p.usage.filesOf name).any P = true ↔ ∃ g ∈ p.files, P g.path = true ∧ p.Occurs g name := by
  rw [← any_flatMap_names, UsageIndex.filesOf, usage, Table.getD_value?_gather Table.keyed_beq,
    Path.any_foldl_insertInto hP, List.any_nil, Bool.false_or]

theorem occursOutside_usage {p : Program} {name : String} {file : Path} :
    p.usage.occursOutside name file = true ↔
      ∃ g ∈ p.files, g.path.same file = false ∧ p.Occurs g name := by
  have hAlike : ∀ q r : Path, q.same r = true → (!q.same file) = !r.same file := by
    intro q r hSame
    rw [Path.same, Path.same, Path.same_iff.mp hSame]
  rw [UsageIndex.occursOutside, any_filesOf_usage hAlike]
  simp only [Bool.not_eq_true']

end Program

namespace SourceFile

theorem value?_positions (f : SourceFile) {names : List String} {name : String} (h : name ∈ names) :
    ((f.positions names).value? (· == ·) name).getD [] =
      (f.tree.tokens.filter (·.text == name)).map Node.Token.start := by
  have hTokens : ((f.tree.tokens.filter fun t => names.contains t.text).map fun t => (t.text, t.start)).filter
      (·.1 == name) = (f.tree.tokens.filter (·.text == name)).map fun t => (t.text, t.start) := by
    rw [List.filter_map, List.filter_filter]
    refine congrArg _ (List.filter_congr fun t _ => ?_)
    rw [Bool.eq_iff_iff]
    simp only [Function.comp_apply, Bool.and_eq_true, beq_iff_eq, List.contains_iff_mem]
    exact and_iff_left_of_imp fun hText => hText ▸ h
  rw [positions, Table.getD_value?_gather Table.keyed_beq, hTokens, List.map_map, List.foldl_append_eq_append,
    List.nil_append, ← List.flatMap_def, List.flatMap_singleton']
  rfl

theorem mentionedOutside_eq_false {f : SourceFile} {names : List String} {e : Entity} (h : e.name ∈ names) :
    mentionedOutside (f.positions names) e = false ↔ ∀ m ∈ f.tree.nodes, m.isName = true →
      m.text = e.name → e.span.start ≤ m.start ∧ m.start < e.span.stop := by
  rw [mentionedOutside, f.value?_positions h]
  simp [Node.tokens_eq, Span.contains]

theorem name_mem_of_kind {f : SourceFile} {kinds : List EntityKind} {e : Entity} (he : e ∈ f.entities)
    (hKind : e.kind ∈ kinds) :
    e.name ∈ (f.entities.filter fun e => kinds.contains e.kind).map Entity.name :=
  List.mem_map_of_mem (List.mem_filter.mpr ⟨he, List.contains_iff_mem.mpr hKind⟩)

theorem unusedEntities_eq (p : Program) (kinds : List EntityKind) (f : SourceFile) :
    f.unusedEntities p.usage kinds = f.entities.filter fun e => e.kind ∈ kinds ∧ p.Unused f e := by
  apply List.filter_congr
  intro e he
  rw [Bool.eq_iff_iff]
  have hOutside : p.usage.occursOutside e.name f.path = false ↔
      ∀ g ∈ p.files, g.path.same f.path = false → ¬ p.Occurs g e.name := by
    rw [← Bool.not_eq_true, Program.occursOutside_usage]
    simp only [not_exists, not_and]
  simp only [Bool.and_eq_true, Bool.not_eq_true', decide_eq_true_eq, List.contains_iff_mem, hOutside, and_assoc]
  refine and_congr_right fun hKind => and_congr_right fun _ => ?_
  exact mentionedOutside_eq_false (name_mem_of_kind he hKind)

end SourceFile

namespace Report

/-- The list for the kind of an entity has a record of it. -/
def Records (r : Report) (f : SourceFile) (e : Entity) : Prop :=
  match e.kind with
  | .function => ⟨f.path, e.name, e.startLine, e.exported, e.complexity⟩ ∈ r.unusedFunctions
  | .component => ⟨f.path, e.name, e.startLine, e.exported, e.complexity⟩ ∈ r.unusedComponents
  | .class_ | .constant => ⟨f.path, e.name, e.kind, e.startLine, e.exported⟩ ∈ r.deadCode

/-- The lists hold one record for each unused entity, in the order of the program. -/
structure ListsUnused (r : Report) (p : Program) : Prop where
  functions : r.unusedFunctions = p.files.flatMap fun f =>
    (f.entities.filter fun e => e.kind = .function ∧ p.Unused f e).map fun e =>
      ⟨f.path, e.name, e.startLine, e.exported, e.complexity⟩
  components : r.unusedComponents = p.files.flatMap fun f =>
    (f.entities.filter fun e => e.kind = .component ∧ p.Unused f e).map fun e =>
      ⟨f.path, e.name, e.startLine, e.exported, e.complexity⟩
  deadCode : r.deadCode = p.files.flatMap fun f =>
    (f.entities.filter fun e => (e.kind = .class_ ∨ e.kind = .constant) ∧ p.Unused f e).map fun e =>
      ⟨f.path, e.name, e.kind, e.startLine, e.exported⟩

/-- An entity has a record exactly if it is unused. The record tells it from the others of the
program by the path, the name and the line. -/
structure ListsExactlyUnused (r : Report) (p : Program) : Prop extends r.ListsUnused p where
  records_of_unused : ∀ f ∈ p.files, ∀ e ∈ f.entities, p.Unused f e → r.Records f e
  records_iff : ∀ f ∈ p.files, ∀ e ∈ f.entities,
    (∀ f' ∈ p.files, f'.path = f.path → f' = f) →
    (∀ e' ∈ f.entities, e'.name = e.name → e'.startLine = e.startLine → e' = e) →
    (r.Records f e ↔ p.Unused f e)

theorem ListsUnused.records_iff {r : Report} {p : Program} (h : r.ListsUnused p) {f : SourceFile}
    {e : Entity} : r.Records f e ↔ ∃ f' ∈ p.files, ∃ e' ∈ f'.entities, p.Unused f' e' ∧
      f'.path = f.path ∧ e'.name = e.name ∧ e'.kind = e.kind ∧ e'.startLine = e.startLine ∧
      e'.exported = e.exported ∧ (e.isFunctionLike = true → e'.complexity = e.complexity) := by
  have hLike : e.isFunctionLike = true ↔ e.kind = .function ∨ e.kind = .component := by
    simp [Entity.isFunctionLike]
  unfold Records
  -- Both sides speak of the same file and entity; the record only packs its fields.
  cases hKind : e.kind with
  | function =>
    simp only [h.functions, List.mem_flatMap, List.mem_map, List.mem_filter]
    grind
  | component =>
    simp only [h.components, List.mem_flatMap, List.mem_map, List.mem_filter]
    grind
  | class_ | constant =>
    simp only [h.deadCode, List.mem_flatMap, List.mem_map, List.mem_filter]
    grind

theorem ListsUnused.records_of_unused {r : Report} {p : Program} (h : r.ListsUnused p)
    {f : SourceFile} {e : Entity} (hf : f ∈ p.files) (he : e ∈ f.entities) (hUnused : p.Unused f e) :
    r.Records f e :=
  h.records_iff.mpr ⟨f, hf, e, he, hUnused, rfl, rfl, rfl, rfl, rfl, fun _ => rfl⟩

end Report

namespace Program

theorem listsUnused (p : Program) (thresholds : Thresholds) (generatedAt : Timestamp) :
    ((Session.ofProgram thresholds p).report generatedAt).ListsUnused p := by
  have hFunctions : ∀ kind f, SourceFile.unusedFunctionsOf p.usage kind f =
      (f.entities.filter fun e => e.kind = kind ∧ p.Unused f e).map fun e =>
        ⟨f.path, e.name, e.startLine, e.exported, e.complexity⟩ := by
    intro kind f
    simp only [SourceFile.unusedFunctionsOf, SourceFile.unusedEntities_eq, List.mem_singleton]
  have hDead : ∀ f, SourceFile.deadCode p.usage f =
      (f.entities.filter fun e => (e.kind = .class_ ∨ e.kind = .constant) ∧ p.Unused f e).map fun e =>
        ⟨f.path, e.name, e.kind, e.startLine, e.exported⟩ := by
    intro f
    simp only [SourceFile.deadCode, SourceFile.unusedEntities_eq, List.mem_cons, List.not_mem_nil,
      or_false]
  constructor
  case functions => exact congrArg p.files.flatMap (funext (hFunctions .function))
  case components => exact congrArg p.files.flatMap (funext (hFunctions .component))
  case deadCode => exact congrArg p.files.flatMap (funext hDead)

/-- A report lists the unused entities, and no others. -/
theorem report_lists_exactly_unused (p : Program) (thresholds : Thresholds) (generatedAt : Timestamp) :
    ((Session.ofProgram thresholds p).report generatedAt).ListsExactlyUnused p := by
  have hLists := p.listsUnused thresholds generatedAt
  refine ⟨hLists, fun f hf e he => hLists.records_of_unused hf he, ?_⟩
  intro f hf e he hFile hEntity
  constructor
  · intro hRecords
    obtain ⟨f', hf', e', he', hUnused, hPath, hName, -, hLine, -⟩ := hLists.records_iff.mp hRecords
    obtain rfl := hFile f' hf' hPath
    obtain rfl := hEntity e' he' hName hLine
    exact hUnused
  · exact hLists.records_of_unused hf he

end Program

end ModuleAtlas
