import ModuleAtlas.Proofs.Program.Files
import ModuleAtlas.Proofs.Program.Unused

/-!
# Imports keep entities off the lists

An entity that another file asks for by its name is not listed as unused. One asked for by
default is not listed if its file is known to export it by default and the binding means
nothing else; asking for it under the name `default` does not count.
-/

namespace ModuleAtlas

set_option autoImplicit false

namespace Program

/-- An import statement asks a file for something. -/
def Asks (p : Program) (g f : SourceFile) (s : Specifier) : Prop :=
  ∃ i ∈ g.imports, i.form = .statement ∧ s ∈ i.specifiers ∧
    (p.resolve g.path i.source).any (·.same f.path) = true

instance (p : Program) (g f : SourceFile) (s : Specifier) : Decidable (p.Asks g f s) :=
  inferInstanceAs (Decidable (∃ i ∈ g.imports, _))

section Bindings

variable {p : Program} {f g : SourceFile} {i : Import} {s : Specifier} {name binding declared : String}
  {bindings : List (String × String)}

theorem mem_of_declaredName? (h : declaredName? bindings binding = some declared) :
    (binding, declared) ∈ bindings := by
  obtain ⟨⟨b, d⟩, hFind, rfl⟩ := Option.map_eq_some_iff.mp h
  have hb : b = binding := by simpa using List.find?_some hFind
  rw [← hb]
  exact List.mem_reverse.mp (List.mem_of_find?_eq_some hFind)

theorem declaredName?_eq_some (hMem : (binding, declared) ∈ bindings)
    (hOnly : ∀ d, (binding, d) ∈ bindings → d = declared) :
    declaredName? bindings binding = some declared := by
  cases h : declaredName? bindings binding with
  | none =>
    have hNone := List.find?_eq_none.mp (Option.map_eq_none_iff.mp h) _ (List.mem_reverse.mpr hMem)
    simp at hNone
  | some d => rw [hOnly d (mem_of_declaredName? h)]

theorem mem_symbolBindings : (binding, declared) ∈ p.symbolBindings g ↔
    ∃ i ∈ g.imports, i.form = .statement ∧ ∃ s ∈ i.specifiers,
      p.declaredAs? g i s = some (binding, declared) := by
  simp [symbolBindings, and_assoc]

theorem declaredAs?_eq_some (h : p.declaredAs? g i s = some (binding, declared)) :
    s = .named declared binding ∨ s = .byDefault binding ∧
      ((p.resolve g.path i.source).bind p.file?).bind SourceFile.defaultExport? = some declared := by
  unfold declaredAs? at h
  split at h
  · split at h
    · cases h
    · cases h
      exact .inl rfl
  · split at h
    · split at h
      · cases h
      · rename_i hDeclared _
        cases h
        exact .inr ⟨rfl, hDeclared⟩
    · cases h
  · cases h

theorem declaredAs?_byDefault
    (h : ((p.resolve g.path i.source).bind p.file?).bind SourceFile.defaultExport? = some declared)
    (hNe : declared ≠ binding) : p.declaredAs? g i (.byDefault binding) = some (binding, declared) := by
  simp [declaredAs?, h, hNe]

theorem occurs_of_mentions (h : g.tree.Mentions name) : p.Occurs g name := by
  obtain ⟨m, hm, hName, hText⟩ := h
  exact ⟨m, hm, hName, .inl hText⟩

theorem occurs_of_declaredName? (h : g.tree.Mentions binding)
    (hDeclared : declaredName? (p.symbolBindings g) binding = some name) : p.Occurs g name := by
  obtain ⟨m, hm, hName, rfl⟩ := h
  exact ⟨m, hm, hName, .inr hDeclared⟩

theorem Read.writes (h : p.Read) (hg : g ∈ p.files) (hAsks : p.Asks g f s) : g.tree.Writes s := by
  obtain ⟨i, hi, hForm, hs, -⟩ := hAsks
  exact (h.grounded hg).written i hi hForm s hs

theorem Read.resolve_file? (h : p.Read) (hf : f ∈ p.files) {q : Option Path}
    (hAny : q.any (·.same f.path) = true) : q.bind p.file? = some f := by
  cases q with
  | none => cases hAny
  | some q => exact h.file?_eq_some hf hAny

theorem exists_asks_of_defaultExport? (hi : i ∈ g.imports) (hForm : i.form = .statement)
    (hs : s ∈ i.specifiers)
    (hDefault : ((p.resolve g.path i.source).bind p.file?).bind SourceFile.defaultExport? = some declared) :
    ∃ f ∈ p.files, f.defaultExport? = some declared ∧ p.Asks g f s := by
  obtain ⟨f, hFile, hDeclared⟩ := Option.bind_eq_some_iff.mp hDefault
  obtain ⟨q, hq, hFile⟩ := Option.bind_eq_some_iff.mp hFile
  have hSame := List.find?_some hFile
  refine ⟨f, List.mem_of_find?_eq_some hFile, hDeclared, i, hi, hForm, hs, ?_⟩
  rw [hq, Option.any_some, Path.same_comm]
  exact hSame

end Bindings

/-- What is asked for by its name, or bound to it, occurs. -/
theorem Read.occurs_of_asks {p : Program} {f g : SourceFile} {s : Specifier} {name : String} (h : p.Read)
    (hg : g ∈ p.files) (hAsks : p.Asks g f s) (hBare : ¬ Quoted name)
    (hName : (∃ binding, s = .named name binding) ∨ s.binding? = some name) : p.Occurs g name := by
  have hWrites := h.writes hg hAsks
  apply occurs_of_mentions
  rcases hName with ⟨binding, rfl⟩ | hBinding
  · exact hWrites.1.resolve_right hBare
  · cases s with
    | byDefault b | star b =>
      cases hBinding
      exact hWrites
    | named x b =>
      cases hBinding
      exact hWrites.2.resolve_right hBare
    | whole b => exact hWrites.elim
    | effect => cases hBinding

/-- What a file exports by default occurs where it is asked for by default, under whatever binding. -/
theorem Read.occurs_of_byDefault {p : Program} {f g : SourceFile} {name binding : String} (h : p.Read)
    (hf : f ∈ p.files) (hg : g ∈ p.files) (hAsks : p.Asks g f (.byDefault binding))
    (hExport : f.defaultExport? = some name)
    (hOnly : ∀ d, (binding, d) ∈ p.symbolBindings g → d = name) : p.Occurs g name := by
  have hBinding : g.tree.Mentions binding := h.writes hg hAsks
  by_cases hEq : name = binding
  · rw [hEq]
    exact occurs_of_mentions hBinding
  · obtain ⟨i, hi, hForm, hs, hResolve⟩ := hAsks
    have hDefault : ((p.resolve g.path i.source).bind p.file?).bind SourceFile.defaultExport? = some name := by
      rw [h.resolve_file? hf hResolve, Option.bind_some, hExport]
    have hMem := mem_symbolBindings.mpr ⟨i, hi, hForm, _, hs, declaredAs?_byDefault hDefault hEq⟩
    exact occurs_of_declaredName? hBinding (declaredName?_eq_some hMem hOnly)

/-- The ways in which a name can occur that is not written down. -/
theorem Read.occurs_iff_of_not_mentions {p : Program} {g : SourceFile} {name : String} (h : p.Read)
    (hg : g ∈ p.files) (hBare : ¬ Quoted name) (hMentions : ¬ g.tree.Mentions name) :
    p.Occurs g name ↔ ∃ f ∈ p.files, ∃ binding, p.Asks g f (.byDefault binding) ∧
      f.defaultExport? = some name ∧ declaredName? (p.symbolBindings g) binding = some name := by
  constructor
  · rintro ⟨m, hm, hName, hText | hDeclared⟩
    · exact absurd ⟨m, hm, hName, hText⟩ hMentions
    · obtain ⟨i, hi, hForm, s, hs, hAs⟩ := mem_symbolBindings.mp (mem_of_declaredName? hDeclared)
      rcases declaredAs?_eq_some hAs with rfl | ⟨rfl, hDefault⟩
      · have hWrites := (h.grounded hg).written i hi hForm _ hs
        exact absurd (hWrites.1.resolve_right hBare) hMentions
      · obtain ⟨f, hf, hExport, hAsks⟩ := exists_asks_of_defaultExport? hi hForm hs hDefault
        exact ⟨f, hf, m.text, hAsks, hExport, hDeclared⟩
  · rintro ⟨f, hf, binding, hAsks, hExport, hDeclared⟩
    exact occurs_of_declaredName? (h.writes hg hAsks) hDeclared

end Program

theorem SourceFile.Grounded.defaultExport?_eq_some {f : SourceFile} (h : f.Grounded) {e : Entity}
    (he : e ∈ f.entities) (hDefault : e.isDefaultExport = true)
    (hSole : ∀ x ∈ f.exports, x.isDefault = true → x.name = e.name ∧ x.name ≠ "default") :
    f.defaultExport? = some e.name := by
  obtain ⟨x, hx, hIsDefault⟩ := h.exportsDefault e he hDefault
  cases hFind : f.exports.find? fun x => x.isDefault && x.name != "default" with
  | none =>
    have hNone := List.find?_eq_none.mp hFind x hx
    simp [hIsDefault, (hSole x hx hIsDefault).2] at hNone
  | some y =>
    have hFound := List.find?_some hFind
    have hIsDefault := (Bool.and_eq_true_iff.mp hFound).1
    rw [defaultExport?, hFind, Option.map_some, (hSole y (List.mem_of_find?_eq_some hFind) hIsDefault).1]

namespace Report

/-- Some record in the lists of unused entities has the path and the name. -/
def Lists (r : Report) (file : Path) (name : String) : Prop :=
  (∃ u ∈ r.unusedFunctions, u.file = file ∧ u.name = name) ∨
    (∃ u ∈ r.unusedComponents, u.file = file ∧ u.name = name) ∨
      ∃ d ∈ r.deadCode, d.file = file ∧ d.name = name

theorem lists_of_records {r : Report} {f : SourceFile} {e : Entity} (h : r.Records f e) :
    r.Lists f.path e.name := by
  unfold Records at h
  split at h
  case h_1 => exact .inl ⟨_, h, rfl, rfl⟩
  case h_2 => exact .inr (.inl ⟨_, h, rfl, rfl⟩)
  case h_3 | h_4 => exact .inr (.inr ⟨_, h, rfl, rfl⟩)

theorem ListsUnused.lists_iff {r : Report} {p : Program} (h : r.ListsUnused p) {file : Path}
    {name : String} : r.Lists file name ↔
      ∃ f ∈ p.files, ∃ e ∈ f.entities, p.Unused f e ∧ f.path = file ∧ e.name = name := by
  constructor
  · simp only [Lists, h.functions, h.components, h.deadCode, List.mem_flatMap, List.mem_map,
      List.mem_filter, decide_eq_true_eq]
    rintro (⟨_, ⟨f, hf, e, ⟨he, -, hUnused⟩, rfl⟩, hFile, hName⟩ |
      ⟨_, ⟨f, hf, e, ⟨he, -, hUnused⟩, rfl⟩, hFile, hName⟩ |
      ⟨_, ⟨f, hf, e, ⟨he, -, hUnused⟩, rfl⟩, hFile, hName⟩)
    all_goals exact ⟨f, hf, e, he, hUnused, hFile, hName⟩
  · rintro ⟨f, hf, e, he, hUnused, rfl, rfl⟩
    exact lists_of_records (h.records_of_unused hf he hUnused)

theorem ListsUnused.not_lists {r : Report} {p : Program} (h : r.ListsUnused p) {f g : SourceFile}
    {name : String} (hg : g ∈ p.files) (hOther : g.path.same f.path = false) (hOccurs : p.Occurs g name) :
    ¬ r.Lists f.path name := by
  intro hLists
  obtain ⟨f', -, e, -, hUnused, hPath, rfl⟩ := h.lists_iff.mp hLists
  exact hUnused.1 g hg (by rwa [hPath]) hOccurs

structure SparesImported (r : Report) (p : Program) : Prop where
  named : ∀ f ∈ p.files, ∀ g ∈ p.files, f ≠ g → ∀ e ∈ f.entities, ∀ binding,
    p.Asks g f (.named e.name binding) → ¬ r.Lists f.path e.name
  bound : ∀ f ∈ p.files, ∀ g ∈ p.files, f ≠ g → ∀ e ∈ f.entities, ∀ s,
    p.Asks g f s → s.binding? = some e.name → ¬ r.Lists f.path e.name
  /-- A default import counts as long as no other one gives its binding another meaning. -/
  byDefault : ∀ f ∈ p.files, ∀ g ∈ p.files, f ≠ g → ∀ e ∈ f.entities, ∀ binding,
    p.Asks g f (.byDefault binding) → f.defaultExport? = some e.name →
      (∀ d, (binding, d) ∈ p.symbolBindings g → d = e.name) → ¬ r.Lists f.path e.name
  defaultExport? : ∀ f ∈ p.files, ∀ e ∈ f.entities, e.isDefaultExport = true →
    (∀ x ∈ f.exports, x.isDefault = true → x.name = e.name ∧ x.name ≠ "default") →
      f.defaultExport? = some e.name
  /-- An entity whose name is written nowhere else is kept off the lists by default imports alone. -/
  lists_iff : ∀ f ∈ p.files, ∀ e ∈ f.entities,
    (∀ m ∈ f.tree.nodes, m.isName = true → m.text = e.name → e.span.contains m.start = true) →
    (∀ g ∈ p.files, f ≠ g → ¬ g.tree.Mentions e.name) →
    (r.Lists f.path e.name ↔ ¬ ∃ g ∈ p.files, f ≠ g ∧ ∃ h ∈ p.files, ∃ binding,
      p.Asks g h (.byDefault binding) ∧ h.defaultExport? = some e.name ∧
        Program.declaredName? (p.symbolBindings g) binding = some e.name)

end Report

namespace Program

theorem ne_of_same_eq_false {f g : SourceFile} (h : g.path.same f.path = false) : f ≠ g := by
  rintro rfl
  rw [Path.same_iff.mpr rfl] at h
  cases h

theorem Read.same_eq_false {p : Program} {f g : SourceFile} (h : p.Read) (hf : f ∈ p.files)
    (hg : g ∈ p.files) (hNe : f ≠ g) : g.path.same f.path = false := by
  rw [Bool.eq_false_iff]
  intro hSame
  exact hNe (h.eq_of_same hg hf hSame).symm

/-- A report keeps off its lists what other files ask for, as far as names tell. -/
theorem report_spares_imported {p : Program} (h : p.Read) (thresholds : Thresholds) (generatedAt : Timestamp) :
    ((Session.ofProgram thresholds p).report generatedAt).SparesImported p := by
  have hLists := p.listsUnused thresholds generatedAt
  constructor
  case named =>
    intro f hf g hg hNe e he binding hAsks
    have hOccurs := h.occurs_of_asks hg hAsks ((h.grounded hf).bare e he) (.inl ⟨binding, rfl⟩)
    exact hLists.not_lists hg (h.same_eq_false hf hg hNe) hOccurs
  case bound =>
    intro f hf g hg hNe e he s hAsks hBinding
    have hOccurs := h.occurs_of_asks hg hAsks ((h.grounded hf).bare e he) (.inr hBinding)
    exact hLists.not_lists hg (h.same_eq_false hf hg hNe) hOccurs
  case byDefault =>
    intro f hf g hg hNe e he binding hAsks hExport hOnly
    have hOccurs := h.occurs_of_byDefault hf hg hAsks hExport hOnly
    exact hLists.not_lists hg (h.same_eq_false hf hg hNe) hOccurs
  case defaultExport? =>
    intro f hf e he hDefault hSole
    exact (h.grounded hf).defaultExport?_eq_some he hDefault hSole
  case lists_iff =>
    intro f hf e he hInside hElsewhere
    have hOccurs := fun g hg hNe => h.occurs_iff_of_not_mentions hg ((h.grounded hf).bare e he) (hElsewhere g hg hNe)
    constructor
    · rintro hListed ⟨g, hg, hNe, hDefault⟩
      exact hLists.not_lists hg (h.same_eq_false hf hg hNe) ((hOccurs g hg hNe).mpr hDefault) hListed
    · intro hNone
      refine hLists.lists_iff.mpr ⟨f, hf, e, he, ⟨fun g hg hOther hg' => ?_, ?_⟩, rfl, rfl⟩
      · have hNe := ne_of_same_eq_false hOther
        exact hNone ⟨g, hg, hNe, (hOccurs g hg hNe).mp hg'⟩
      · simpa [Span.contains] using hInside

/-- The default export is bound to another name, and a constant too. -/
def aliased : Program :=
  ofSources (.ofString "/app")
    ([(.ofString "/app/f.js", "export default function Foo() {}\nexport const baz = 1;\n"),
      (.ofString "/app/g.js", "import Bar, { baz as qux } from './f';\nBar(qux);\n")].map
      fun t => (t.1, .ofString t.2)) []

set_option maxRecDepth 100000 in
theorem aliased_spares_imported : aliased.Read ∧
    (∃ f ∈ aliased.files, ∃ g ∈ aliased.files, g.path.same f.path = false ∧ ∃ e ∈ f.entities,
      e.isDefaultExport = true ∧ f.defaultExport? = some e.name ∧ aliased.Asks g f (.byDefault "Bar") ∧
      (∀ d ∈ aliased.symbolBindings g, d.1 = "Bar" → d.2 = e.name) ∧
      aliased.Asks g f (.named "baz" "qux")) ∧
    ((Session.ofProgram ⟨10, 3⟩ aliased).report ⟨0, 0⟩).SparesImported aliased :=
  ⟨read_ofSources _ _ _, by decide +kernel, report_spares_imported (read_ofSources _ _ _) _ _⟩

/-- A default export that another file asks for is listed all the same. -/
def ListsAsked (p : Program) (s : Specifier) : Prop :=
  ∃ f ∈ p.files, ∃ g ∈ p.files, f ≠ g ∧ ∃ e ∈ f.entities,
    e.exported = true ∧ e.isDefaultExport = true ∧ p.Asks g f s ∧ ∀ thresholds generatedAt,
      ((Session.ofProgram thresholds p).report generatedAt).Lists f.path e.name

theorem listsAsked_of_unused {p : Program} {s : Specifier}
    (h : ∃ f ∈ p.files, ∃ g ∈ p.files, g.path.same f.path = false ∧ ∃ e ∈ f.entities,
      e.exported = true ∧ e.isDefaultExport = true ∧ p.Asks g f s ∧ p.Unused f e) : p.ListsAsked s := by
  obtain ⟨f, hf, g, hg, hOther, e, he, hExported, hDefault, hAsks, hUnused⟩ := h
  refine ⟨f, hf, g, hg, ne_of_same_eq_false hOther, e, he, hExported, hDefault, hAsks, fun thresholds generatedAt => ?_⟩
  exact (p.listsUnused thresholds generatedAt).lists_iff.mpr ⟨f, hf, e, he, hUnused, rfl, rfl⟩

/-- The default export is asked for by the name `default`. -/
def renamedDefault : Program :=
  ofSources (.ofString "/app")
    ([(.ofString "/app/f.js", "export default function Foo() { return 1; }\n"),
      (.ofString "/app/g.js", "import { default as Bar } from './f';\nBar();\n")].map
      fun t => (t.1, .ofString t.2)) []

/-- The default export stands in parentheses. -/
def wrappedDefault : Program :=
  ofSources (.ofString "/app")
    ([(.ofString "/app/f.js", "export default (function Foo() { return 1; });\n"),
      (.ofString "/app/g.js", "import Bar from './f';\nBar();\n")].map
      fun t => (t.1, .ofString t.2)) []

set_option maxRecDepth 100000 in
theorem asked_default_listed : renamedDefault.Read ∧ renamedDefault.ListsAsked (.named "default" "Bar") ∧
    wrappedDefault.Read ∧ wrappedDefault.ListsAsked (.byDefault "Bar") :=
  ⟨read_ofSources _ _ _, listsAsked_of_unused (by decide +kernel), read_ofSources _ _ _,
    listsAsked_of_unused (by decide +kernel)⟩

end Program

end ModuleAtlas
