import ModuleAtlas.Proofs.File.Exports
import ModuleAtlas.Proofs.Graph.OfProgram
import ModuleAtlas.Proofs.Syntax.ExportForm

/-!
# The labels of edges

The label of an edge has what the imports of a file ask for: names as they stand in the other file,
and a star for all of it. Of a re-export it has the names that are given away. The two differ where
a name is given away under another one or a star is bound to a name; where the star is bound to a
quoted text, nothing is given away at all.
-/

namespace ModuleAtlas

set_option autoImplicit false

namespace Node

/-- The statement asks its source for a name, or by a star for all of them, and gives it away under
the second name, if there is one. -/
inductive Forwards (n : Node) : String → Option String → Prop where
  | named {clause specifier name : Node} (hClause : clause ∈ n.children) (hKind : clause.kind = .exportClause)
      (hSpecifier : specifier ∈ clause.children) (hSpecifierKind : specifier.kind = .exportSpecifier)
      (hName : specifier.child? .name = some name) :
      Forwards n name.text (some ((specifier.child? .alias).getD name).text)
  | bound {star : Node} (hStar : star ∈ n.children) (hKind : star.kind = .namespaceExport) :
      Forwards n "*" ((star.namedChildren.find? (·.kind == .identifier)).map text)
  | all (h : n.hasSymbol "*" = true) : Forwards n "*" (some "*")

theorem forwards_iff {n : Node} {asked : String} {given : Option String} : n.Forwards asked given ↔
    (∃ c ∈ n.children, c.kind = .exportClause ∧ ∃ s ∈ c.children, s.kind = .exportSpecifier ∧
      ∃ name ∈ (s.child? .name).toList, name.text = asked ∧
        some ((s.child? .alias).getD name).text = given) ∨
    (∃ c ∈ n.children, c.kind = .namespaceExport ∧ "*" = asked ∧
      (c.namedChildren.find? (·.kind == .identifier)).map text = given) ∨
    (n.hasSymbol "*" = true ∧ "*" = asked ∧ some "*" = given) := by
  constructor
  · intro h
    cases h with
    | named hc hKind hs hSpecifier hName =>
      exact .inl ⟨_, hc, hKind, _, hs, hSpecifier, _, Option.mem_toList.mpr hName, rfl, rfl⟩
    | bound hc hKind => exact .inr (.inl ⟨_, hc, hKind, rfl, rfl⟩)
    | all hStar => exact .inr (.inr ⟨hStar, rfl, rfl⟩)
  · rintro (⟨c, hc, hKind, s, hs, hSpecifier, name, hName, rfl, rfl⟩ | ⟨c, hc, hKind, rfl, rfl⟩ |
      ⟨hStar, rfl, rfl⟩)
    · exact .named hc hKind hs hSpecifier (Option.mem_toList.mp hName)
    · exact .bound hc hKind
    · exact .all hStar

instance (n : Node) (asked : String) (given : Option String) : Decidable (n.Forwards asked given) :=
  decidable_of_iff' _ forwards_iff

section Statements

variable {n clause source : Node} {lines : LineTable} {r : Export} {kind : ExportKind} {line : Nat}

theorem mem_clauseExports {origin : Option String} : r ∈ clause.clauseExports kind line origin ↔
    ∃ s ∈ clause.children, s.kind = .exportSpecifier ∧
      ∃ token, (s.child? .alias).or (s.child? .name) = some token ∧
        (⟨token.text, kind, token.text == "default", line, origin⟩ : Export) = r := by
  simp only [clauseExports, namedChildren, List.mem_filterMap, List.mem_filter, beq_iff_eq,
    Option.map_eq_some_iff, Option.orElse_eq_or]
  constructor
  · rintro ⟨s, ⟨⟨hs, -⟩, hKind⟩, h⟩
    exact ⟨s, hs, hKind, h⟩
  · rintro ⟨s, hs, hKind, h⟩
    exact ⟨s, ⟨⟨hs, by simp [isNamed, hKind]⟩, hKind⟩, h⟩

theorem child?_eq_none_of_loose {role : Role} (h : ∀ c ∈ n.children, c.Loose) (hRole : role ≠ .source) :
    n.child? role = none := by
  refine List.find?_eq_none.mpr fun c hc => ?_
  rcases h c hc with hNone | hSource
  · simp [hNone]
  · simp [hSource, hRole.symm]

theorem ExportForm.exists_name {s : Node} (h : ExportForm n.children) (hSource : n.child? .source = some source)
    (hClause : clause ∈ n.children) (hKind : clause.kind = .exportClause) (hs : s ∈ clause.children)
    (hSpecifier : s.kind = .exportSpecifier) : ∃ name, s.child? .name = some name := by
  have hTitled : clause.Titled := by
    rcases (h.of_source hSource).2 with hNameless | hStarless
    · exact titled_of_nameless (hNameless clause hClause)
    · exact (hStarless clause hClause).2
  obtain ⟨t, ht, hRole⟩ := hTitled hKind s hs hSpecifier
  exact Option.isSome_iff_exists.mp (List.find?_isSome.mpr ⟨t, ht, by simp [hRole]⟩)

theorem source_of_mem_clauseExports {origin : Option String} (h : r ∈ clause.clauseExports kind line origin) :
    r.source = origin := by
  obtain ⟨s, -, -, token, -, rfl⟩ := mem_clauseExports.mp h
  rfl

theorem mem_starExports {star : Node} {origin : Option String} : r ∈ star.starExports kind line origin ↔
    ∃ token, star.namedChildren.find? (·.kind == .identifier) = some token ∧
      (⟨token.text, kind, false, line, origin⟩ : Export) = r := by
  simp [starExports]

/-- Only a statement with a source makes records that name one. -/
theorem source_of_mem_statementExports (hr : r ∈ n.statementExports lines) {origin : String}
    (hOrigin : r.source = some origin) : ∃ source, n.child? .source = some source ∧ source.unquoted = origin := by
  rw [← Option.map_eq_some_iff, ← hOrigin]
  unfold statementExports at hr
  dsimp only at hr
  split at hr
  case h_1 =>
    obtain ⟨x, -, rfl⟩ := List.mem_map.mp hr
    cases hOrigin
  case h_2 =>
    split at hr
    case h_1 =>
      rw [List.mem_singleton.mp hr] at hOrigin
      cases hOrigin
    case h_2 =>
      generalize (if ((n.child? .source).map unquoted).isSome = true then ExportKind.reexport
        else .value) = kind at hr
      split at hr
      · rw [List.mem_singleton.mp hr]
      · obtain ⟨c, -, hr⟩ := List.mem_flatMap.mp hr
        split at hr
        · exact (source_of_mem_clauseExports hr).symm
        · obtain ⟨token, -, rfl⟩ := mem_starExports.mp hr
          rfl
        · cases hr

/-- The export is one of the names in a child of a statement. -/
def Lists (c : Node) (line : Nat) (origin : Option String) (r : Export) : Prop :=
  (c.kind = .exportClause ∧ r ∈ c.clauseExports .reexport line origin) ∨
    (c.kind = .namespaceExport ∧ r ∈ c.starExports .reexport line origin)

theorem mem_statementExports (hForm : ExportForm n.children) (hSource : n.child? .source = some source) :
    r ∈ n.statementExports lines ↔
      (∃ c ∈ n.children, c.Lists (lines.lineAt n.start) (some source.unquoted) r) ∨
      (n.hasSymbol "*" = true ∧ r = ⟨"*", .reexport, false, lines.lineAt n.start, some source.unquoted⟩) := by
  obtain ⟨hLoose, hForm⟩ := hForm.of_source hSource
  have hDecl : n.child? .declaration = none := child?_eq_none_of_loose hLoose (by decide)
  have hValue : n.child? .value = none := child?_eq_none_of_loose hLoose (by decide)
  simp only [statementExports, hDecl, hValue, hSource, Option.map_some, Option.isSome_some, if_true, Bool.and_true]
  generalize hNamed : n.children.flatMap _ = named
  have hMem : ∀ x, x ∈ named ↔ ∃ c ∈ n.children, c.Lists (lines.lineAt n.start) (some source.unquoted) x := by
    intro x
    rw [← hNamed, List.mem_flatMap]
    refine exists_congr fun c => and_congr_right fun _ => ?_
    split <;> simp_all [Lists]
  rw [← hMem]
  rcases hForm with hNameless | hStarless
  · have hEmpty : named = [] := by
      refine List.eq_nil_iff_forall_not_mem.mpr fun x hx => ?_
      obtain ⟨c, hc, hLists⟩ := (hMem x).mp hx
      have hKinds := hNameless c hc
      rcases hLists with ⟨hKind, -⟩ | ⟨hKind, -⟩ <;> simp [holdsNames, hKind] at hKinds
    cases n.hasSymbol "*" <;> simp [hEmpty]
  · have hStar : n.hasSymbol "*" = false := by
      simpa [hasSymbol, IsStar] using fun c hc => (hStarless c hc).1
    simp [hStar]

/-- The names that a statement with a source is recorded with are those it gives away. -/
theorem exists_export_iff (lines : LineTable) (hForm : ExportForm n.children)
    (hSource : n.child? .source = some source) {x : String} :
    (∃ r ∈ n.statementExports lines, r.name = x ∧ r.source = some source.unquoted) ↔
      ∃ asked, n.Forwards asked (some x) := by
  have hMem (r : Export) : r ∈ n.statementExports lines ↔ _ := mem_statementExports hForm hSource
  constructor
  · rintro ⟨r, hr, rfl, -⟩
    rcases (hMem r).mp hr with ⟨c, hc, ⟨hKind, hr⟩ | ⟨hKind, hr⟩⟩ | ⟨hStar, rfl⟩
    · obtain ⟨s, hs, hSpecifier, token, hToken, rfl⟩ := mem_clauseExports.mp hr
      obtain ⟨name, hName⟩ := hForm.exists_name hSource hc hKind hs hSpecifier
      rw [hName, Option.or_some, Option.some_inj] at hToken
      subst hToken
      exact ⟨_, .named hc hKind hs hSpecifier hName⟩
    · obtain ⟨token, hToken, rfl⟩ := mem_starExports.mp hr
      have hBound := Forwards.bound hc hKind
      rw [hToken] at hBound
      exact ⟨_, hBound⟩
    · exact ⟨_, .all hStar⟩
  · rintro ⟨asked, h⟩
    generalize hGiven : some x = given at h
    cases h with
    | named hClause hKind hs hSpecifier hName =>
      cases hGiven
      refine ⟨_, (hMem _).mpr (.inl ⟨_, hClause, .inl ⟨hKind, mem_clauseExports.mpr
        ⟨_, hs, hSpecifier, _, ?_, rfl⟩⟩⟩), rfl, rfl⟩
      rw [hName, Option.or_some]
    | bound hStar hKind =>
      obtain ⟨token, hToken, rfl⟩ := Option.map_eq_some_iff.mp hGiven.symm
      exact ⟨_, (hMem _).mpr (.inl ⟨_, hStar, .inr ⟨hKind, mem_starExports.mpr ⟨token, hToken, rfl⟩⟩⟩), rfl, rfl⟩
    | all hStar =>
      cases hGiven
      exact ⟨_, (hMem _).mpr (.inr ⟨hStar, rfl⟩), rfl, rfl⟩

end Statements

end Node

namespace Program

def reexports (p : Program) (f g : SourceFile) : List Node :=
  f.tree.namedChildren.filter fun n => n.kind = .exportStatement ∧
    ∃ source ∈ (n.child? .source).toList, p.resolve f.path source.unquoted = some g.path

/-- An import of the first file asks the second one for this. -/
def AsksFor (p : Program) (f g : SourceFile) (x : String) : Prop :=
  ∃ i ∈ f.imports, p.resolve f.path i.source = some g.path ∧ ∃ s ∈ i.specifiers, s.symbol? = some x

/-- The first file gives away something of the second one under this name. -/
def GivesAway (p : Program) (f g : SourceFile) (x : String) : Prop :=
  ∃ n ∈ p.reexports f g, ∃ asked, n.Forwards asked (some x)

variable {p : Program} {f g : SourceFile} {x : String}

theorem mem_reexports {n : Node} : n ∈ p.reexports f g ↔ n ∈ f.tree.namedChildren ∧ n.kind = .exportStatement ∧
    ∃ source, n.child? .source = some source ∧ p.resolve f.path source.unquoted = some g.path := by
  simp [reexports]

theorem Read.exportForm (h : p.Read) (hf : f ∈ p.files) {n : Node} (hn : n ∈ f.tree.namedChildren)
    (hKind : n.kind = .exportStatement) : Node.ExportForm n.children := by
  obtain ⟨text, hText⟩ := h.parsed f hf
  obtain ⟨language, tree, hTree, hFile⟩ := SourceFile.exists_of_parse hText
  have hEq : f.tree = tree := by rw [hFile]; rfl
  rw [hEq] at hn
  exact Syntax.exportForm_of_parse hTree (List.mem_of_mem_filter hn) hKind

theorem Read.exists_reexport_iff (h : p.Read) (hf : f ∈ p.files) :
    (∃ r ∈ f.exports, r.source.bind (p.resolve f.path) = some g.path ∧ r.name = x) ↔ p.GivesAway f g x := by
  obtain ⟨text, hText⟩ := h.parsed f hf
  have hExports := (SourceFile.reads_of_parse hText).exports
  constructor
  · rintro ⟨r, hr, hResolve, rfl⟩
    obtain ⟨origin, hOrigin, hTarget⟩ := Option.bind_eq_some_iff.mp hResolve
    rw [hExports] at hr
    obtain ⟨n, hn, hr⟩ := List.mem_flatMap.mp hr
    obtain ⟨hTop, hKind⟩ := List.mem_filter.mp hn
    obtain ⟨source, hSource, rfl⟩ := Node.source_of_mem_statementExports hr hOrigin
    have hKind : n.kind = .exportStatement := beq_iff_eq.mp hKind
    exact ⟨n, mem_reexports.mpr ⟨hTop, hKind, source, hSource, hTarget⟩,
      (Node.exists_export_iff _ (h.exportForm hf hTop hKind) hSource).mp ⟨r, hr, rfl, hOrigin⟩⟩
  · rintro ⟨n, hn, hForwards⟩
    obtain ⟨hTop, hKind, source, hSource, hTarget⟩ := mem_reexports.mp hn
    obtain ⟨r, hr, rfl, hOrigin⟩ :=
      (Node.exists_export_iff (.ofSource (.ofString text)) (h.exportForm hf hTop hKind) hSource).mpr hForwards
    refine ⟨r, ?_, by rw [hOrigin, Option.bind_some, hTarget], rfl⟩
    rw [hExports]
    exact List.mem_flatMap.mpr ⟨n, List.mem_filter.mpr ⟨hTop, beq_iff_eq.mpr hKind⟩, hr⟩

theorem Read.mem_drawn (h : p.Read) (hf : f ∈ p.files) :
    x ∈ p.drawn f g ↔ p.AsksFor f g x ∨ p.GivesAway f g x := by
  rw [← h.exists_reexport_iff hf, drawn, List.mem_append]
  apply or_congr
  · simp [AsksFor, Import.symbols, and_assoc]
  · simp [and_assoc]

theorem Read.requires_iff (h : p.Read) (hf : f ∈ p.files) : p.Requires f g ↔
    (∃ i ∈ f.imports, p.resolve f.path i.source = some g.path) ∨ ∃ x, p.GivesAway f g x := by
  simp only [← h.exists_reexport_iff hf, Requires, ← Option.bind_eq_some_iff]
  refine or_congr_right ⟨?_, ?_⟩
  · rintro ⟨r, hr, hTarget⟩
    exact ⟨r.name, r, hr, hTarget, rfl⟩
  · rintro ⟨x, r, hr, hTarget, -⟩
    exact ⟨r, hr, hTarget⟩

end Program

namespace FileGraph

/-- What imports ask for is in the label, and of what a re-export asks for the name under which it
is given away. -/
structure LabelledByGivenNames (p : Program) (f g : SourceFile) : Prop where
  drawn_iff : (∃ e, (ofProgram p).edge? f.path g.path = some e) ↔
    (∃ i ∈ f.imports, p.resolve f.path i.source = some g.path) ∨ ∃ x, p.GivesAway f g x
  label_iff : ∀ e, (ofProgram p).edge? f.path g.path = some e →
    ∀ x, x ∈ e.symbols ↔ p.AsksFor f g x ∨ p.GivesAway f g x
  imported : ∀ x, p.AsksFor f g x → ∃ e, (ofProgram p).edge? f.path g.path = some e ∧ x ∈ e.symbols
  forwarded : ∀ n ∈ p.reexports f g, ∀ asked given, n.Forwards asked (some given) →
    ∃ e, (ofProgram p).edge? f.path g.path = some e ∧ given ∈ e.symbols ∧
      (asked ∈ e.symbols ↔ asked = given ∨ p.AsksFor f g asked ∨ p.GivesAway f g asked)

theorem edge_labelled_by_given_names {p : Program} {f g : SourceFile} (h : p.Read) (hf : f ∈ p.files)
    (hg : g ∈ p.files) : LabelledByGivenNames p f g := by
  have hDrawn : (∃ e, (ofProgram p).edge? f.path g.path = some e) ↔
      (∃ i ∈ f.imports, p.resolve f.path i.source = some g.path) ∨ ∃ x, p.GivesAway f g x := by
    rw [← Option.isSome_iff_exists, isSome_edge?_ofProgram h hf hg, h.requires_iff hf]
  have hLabel : ∀ e, (ofProgram p).edge? f.path g.path = some e →
      ∀ x, x ∈ e.symbols ↔ p.AsksFor f g x ∨ p.GivesAway f g x := by
    intro e he x
    have hRequires := (isSome_edge?_ofProgram h hf hg).mp (by rw [he]; rfl)
    have hSymbols := symbols?_of_requires h hg hf hRequires
    rw [symbols?, he, Option.map_some, Option.some_inj] at hSymbols
    rw [hSymbols, (Text.firstSeen_spec _).mem_iff, h.mem_drawn hf]
  have hNamed : ∀ x, p.AsksFor f g x ∨ p.GivesAway f g x →
      ∃ e, (ofProgram p).edge? f.path g.path = some e ∧ x ∈ e.symbols := by
    intro x hx
    have hCause : (∃ i ∈ f.imports, p.resolve f.path i.source = some g.path) ∨ ∃ x, p.GivesAway f g x := by
      rcases hx with ⟨i, hi, hTarget, -⟩ | hx
      · exact .inl ⟨i, hi, hTarget⟩
      · exact .inr ⟨x, hx⟩
    obtain ⟨e, he⟩ := hDrawn.mpr hCause
    exact ⟨e, he, (hLabel e he x).mpr hx⟩
  constructor
  case drawn_iff => exact hDrawn
  case label_iff => exact hLabel
  case imported => exact fun x hx => hNamed x (.inl hx)
  case forwarded =>
    intro n hn asked given hForwards
    have hGiven : p.GivesAway f g given := ⟨n, hn, asked, hForwards⟩
    obtain ⟨e, he, hMem⟩ := hNamed given (.inr hGiven)
    refine ⟨e, he, hMem, ?_⟩
    rw [hLabel e he]
    constructor
    · exact .inr
    · rintro (rfl | hAsked)
      · exact .inr hGiven
      · exact hAsked

/-- A file asks another one by imports and by re-exports of every form. -/
def relayed : Program :=
  .ofSources (.ofString "/app")
    ([(.ofString "/app/b.ts", "export const n = 1;\nexport const q = 2;\n"),
      (.ofString "/app/a.ts", "import { n as i } from './b';\nexport { n as m, q } from './b';\n" ++
        "export * as k from './b';\nexport * from './b';\nexport * as 'l' from './a';\n")].map
      fun t => (t.1, .ofString t.2)) []

theorem relayed_labelled_by_given_names : relayed.Read ∧ ∃ f ∈ relayed.files, ∃ g ∈ relayed.files,
    (ofProgram relayed).symbols? f.path g.path = some ["n", "m", "q", "k", "*"] ∧
    (ofProgram relayed).symbols? f.path f.path = none ∧ LabelledByGivenNames relayed f g := by
  have hRead : relayed.Read := Program.read_ofSources _ _ _
  have hFiles : ∃ f ∈ relayed.files, ∃ g ∈ relayed.files,
      (ofProgram relayed).symbols? f.path g.path = some ["n", "m", "q", "k", "*"] ∧
      (ofProgram relayed).symbols? f.path f.path = none := by
    decide +kernel
  obtain ⟨f, hf, g, hg, hOther, hSelf⟩ := hFiles
  exact ⟨hRead, f, hf, g, hg, hOther, hSelf, edge_labelled_by_given_names hRead hf hg⟩

/-- A name given away under another one, and a star bound to a name. -/
def renamed : Program :=
  .ofSources (.ofString "/app")
    ([(.ofString "/app/b.ts", "export const n = 1;\n"),
      (.ofString "/app/a.ts", "export { n as m } from './b';\nexport * as k from './b';\n")].map
      fun t => (t.1, .ofString t.2)) []

/-- The label names what is given away, and neither the name that is asked for nor the star. -/
theorem asked_names_unlabelled : ∃ f ∈ renamed.files, ∃ g ∈ renamed.files,
    (∃ n ∈ renamed.reexports f g, n.Forwards "n" (some "m")) ∧
    (∃ n ∈ renamed.reexports f g, n.Forwards "*" (some "k")) ∧
    (ofProgram renamed).symbols? f.path g.path = some ["m", "k"] := by
  decide +kernel

end FileGraph

end ModuleAtlas
