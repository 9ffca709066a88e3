import ModuleAtlas.File.SourceFile
import ModuleAtlas.Proofs.File.Imports
import ModuleAtlas.Proofs.Syntax.Tree

/-!
# Names of entities and imports

Of a file that was read, no entity has a quoted name, and what an import statement asks for
or binds stands in it as a name or is a quoted text.
-/

namespace ModuleAtlas

set_option autoImplicit false

namespace Node

mutual

theorem unwrapped_mem_nodes (n : Node) : n.unwrapped ∈ n.nodes := by
  cases n with
  | leaf k r s t => exact List.mem_singleton_self _
  | branch k r s e cs =>
    rw [unwrapped]
    split
    · cases hFirst : unwrappedFirst cs with
      | none => exact List.mem_cons_self
      | some m => exact List.mem_cons_of_mem _ (unwrappedFirst_mem_nodesAll cs hFirst)
    · exact List.mem_cons_self

theorem unwrappedFirst_mem_nodesAll {m : Node} (cs : List Node) (h : unwrappedFirst cs = some m) :
    m ∈ nodesAll cs := by
  cases cs with
  | nil => cases h
  | cons c cs =>
    rw [unwrappedFirst] at h
    split at h
    · cases h
      exact List.mem_append_left _ (unwrapped_mem_nodes c)
    · exact List.mem_append_right _ (unwrappedFirst_mem_nodesAll cs h)

end

section Nodes

variable {m k : Node}

theorem mem_of_child? {n c : Node} {r : Role} (h : n.child? r = some c) :
    c ∈ n.children ∧ c.role = some r :=
  ⟨List.mem_of_find?_eq_some h, by simpa using List.find?_some h⟩

theorem mem_children_of_named {n : Node} (h : m ∈ n.namedChildren) : m ∈ n.children :=
  (List.mem_filter.mp h).1

theorem Sound.of_mem {n : Node} (h : n.Sound) (hm : m ∈ n.nodes) : m.Sound :=
  ⟨fun _ hk => h.fits _ (mem_nodes_trans n hm hk)⟩

theorem Sound.of_child {n : Node} (h : n.Sound) (hm : m ∈ n.children) : m.Sound :=
  (sound_iff.mp h).2 m hm

theorem Sound.bare {n : Node} (h : n.Sound) (hName : n.isName = true) : ¬ Quoted n.text :=
  (h.fits n n.self_mem_nodes).bare hName

end Nodes

section Entities

variable {n c outer decl value : Node} {lines : LineTable} {bindings : List String}
  {standing : Standing} {name : String} {e : Entity}

theorem not_quoted_of_isNamed (h : n.Sound) (hKind : n.kind.isNamed = true)
    (hc : n.child? .name = some c) : ¬ Quoted c.text := by
  obtain ⟨hMem, hRole⟩ := mem_of_child? hc
  exact (h.of_child hMem).bare ((h.fits n n.self_mem_nodes).named hKind c hMem hRole)

theorem not_quoted_of_plainName? (h : n.Sound) (hName : n.plainName? = some name) :
    ¬ Quoted name := by
  unfold plainName? at hName
  split at hName
  case h_1 c hc =>
    split at hName
    · rename_i hKind
      cases hName
      refine (h.of_child (mem_of_child? hc).1).bare ?_
      rw [isName, beq_iff_eq.mp hKind]
      rfl
    · cases hName
  case h_2 => cases hName

/-- A declaration is known by its own name, or by those of its declarators. -/
theorem mem_declaredEntities (he : e ∈ declaredEntities lines bindings standing outer decl) :
    e.isDefaultExport = (standing == .byDefault) ∧
      ((decl.kind ∈ [.functionDeclaration, .generatorFunctionDeclaration, .classDeclaration,
          .abstractClassDeclaration] ∧ ∃ c, decl.child? .name = some c ∧ c.text = e.name) ∨
        (decl.kind ∈ [.lexicalDeclaration, .variableDeclaration] ∧ e.name ∈ decl.declaratorNames)) := by
  unfold declaredEntities at he
  split at he
  case h_1 hKind | h_2 hKind | h_3 hKind | h_4 hKind =>
    simp only [Option.map_map, Option.mem_toList, Option.map_eq_some_iff] at he
    obtain ⟨c, hc, rfl⟩ := he
    exact ⟨rfl, .inl ⟨by simp [hKind], c, hc, rfl⟩⟩
  case h_5 hKind | h_6 hKind =>
    obtain ⟨d, hd, hEntity⟩ := List.mem_filterMap.mp he
    obtain ⟨name, hName, hRest⟩ := Option.bind_eq_some_iff.mp hEntity
    obtain ⟨kind, -, hRest⟩ := Option.bind_eq_some_iff.mp hRest
    cases hRest
    exact ⟨rfl, .inr ⟨by simp [hKind], List.mem_filterMap.mpr ⟨d, hd, hName⟩⟩⟩
  case h_7 => cases he

theorem not_quoted_of_mem_declaredEntities (h : decl.Sound)
    (he : e ∈ declaredEntities lines bindings standing outer decl) : ¬ Quoted e.name := by
  rcases (mem_declaredEntities he).2 with ⟨hKind, c, hc, hText⟩ | ⟨-, hName⟩
  · have hNamed : decl.kind.isNamed = true := by
      simp only [List.mem_cons, List.not_mem_nil, or_false] at hKind
      rcases hKind with hKind | hKind | hKind | hKind <;> rw [hKind] <;> rfl
    rw [← hText]
    exact not_quoted_of_isNamed h hNamed hc
  · obtain ⟨d, hd, hName⟩ := List.mem_filterMap.mp hName
    exact not_quoted_of_plainName? (h.of_child (mem_children_of_named (List.mem_filter.mp hd).1)) hName

theorem not_quoted_of_mem_valueEntities (h : value.Sound)
    (he : e ∈ valueEntities lines bindings outer value) : ¬ Quoted e.name := by
  have hInner := h.of_mem value.unwrapped_mem_nodes
  unfold valueEntities at he
  dsimp only at he
  split at he
  case h_1 => cases he
  case h_2 c hc =>
    split at he
    case h_1 hKind | h_2 hKind | h_3 hKind =>
      rw [List.mem_singleton.mp he]
      exact not_quoted_of_isNamed hInner (by rw [hKind]; rfl) hc
    case h_4 => cases he

theorem not_quoted_of_mem_entities (h : n.Sound) (he : e ∈ n.entities lines bindings) :
    ¬ Quoted e.name := by
  obtain ⟨c, hc, he⟩ := List.mem_flatMap.mp he
  have hChild := h.of_child (mem_children_of_named hc)
  unfold statementEntities at he
  split at he
  · exact not_quoted_of_mem_declaredEntities hChild he
  · split at he
    case h_1 decl hDecl =>
      exact not_quoted_of_mem_declaredEntities (hChild.of_child (mem_of_child? hDecl).1) he
    case h_2 =>
      split at he
      case h_1 value hValue =>
        exact not_quoted_of_mem_valueEntities (hChild.of_child (mem_of_child? hValue).1) he
      case h_2 => cases he

theorem exists_declaredName (he : e ∈ declaredEntities lines bindings standing outer decl) :
    ∃ kind, (e.name, kind) ∈ decl.declaredNames := by
  unfold declaredNames
  rcases (mem_declaredEntities he).2 with ⟨hKind, c, hc, hText⟩ | ⟨hKind, hName⟩
  · simp only [List.mem_cons, List.not_mem_nil, or_false] at hKind
    rcases hKind with hKind | hKind | hKind | hKind <;> simp [hKind, hc, hText]
  · have hMem := List.mem_map_of_mem (f := fun name => (name, ExportKind.variable_)) hName
    simp only [List.mem_cons, List.not_mem_nil, or_false] at hKind
    rcases hKind with hKind | hKind <;> exact ⟨.variable_, by simpa only [hKind] using hMem⟩

theorem statementExports_of_declaration (h : n.child? .declaration = some decl) :
    n.statementExports lines = decl.declaredNames.map fun x =>
      ⟨x.1, x.2, n.hasSymbol "default", lines.lineAt n.start, none⟩ := by
  rw [statementExports, h]

theorem statementExports_of_value (hDecl : n.child? .declaration = none)
    (hValue : n.child? .value = some value) : n.statementExports lines =
      [⟨value.valueExport.1, value.valueExport.2, true, lines.lineAt n.start, none⟩] := by
  rw [statementExports, hDecl, hValue]

theorem exists_default_of_mem_statementEntities (hKind : n.kind = .exportStatement)
    (he : e ∈ n.statementEntities lines bindings) (hDefault : e.isDefaultExport = true) :
    ∃ x ∈ n.statementExports lines, x.isDefault = true := by
  rw [statementEntities, hKind] at he
  cases hDecl : n.child? .declaration with
  | some decl =>
    simp only [hDecl, bne_self_eq_false, Bool.false_eq_true, if_false] at he
    obtain ⟨kind, hName⟩ := exists_declaredName he
    rw [statementExports_of_declaration hDecl]
    refine ⟨_, List.mem_map_of_mem hName, ?_⟩
    by_cases hSymbol : n.hasSymbol "default" = true
    · exact hSymbol
    · rw [(mem_declaredEntities he).1, if_neg hSymbol] at hDefault
      cases hDefault
  | none =>
    cases hValue : n.child? .value with
    | some value =>
      rw [statementExports_of_value hDecl hValue]
      exact ⟨_, List.mem_singleton_self _, rfl⟩
    | none => simp [hDecl, hValue] at he

theorem exists_default_of_mem_entities (he : e ∈ n.entities lines bindings)
    (hDefault : e.isDefaultExport = true) : ∃ x ∈ n.exports lines, x.isDefault = true := by
  obtain ⟨c, hc, he⟩ := List.mem_flatMap.mp he
  by_cases hKind : c.kind = .exportStatement
  · obtain ⟨x, hx, hIsDefault⟩ := exists_default_of_mem_statementEntities hKind he hDefault
    have hExports : c ∈ n.namedChildren.filter (·.kind == .exportStatement) :=
      List.mem_filter.mpr ⟨hc, beq_iff_eq.mpr hKind⟩
    exact ⟨x, List.mem_flatMap_of_mem hExports hx, hIsDefault⟩
  · rw [statementEntities, if_pos (bne_iff_ne.mpr hKind)] at he
    rw [(mem_declaredEntities he).1] at hDefault
    cases hDefault

end Entities

section Imports

variable {n c : Node} {lines : LineTable} {i : Import} {s : Specifier} {text : String}

/-- The text is one of the names in the tree. -/
def Mentions (n : Node) (text : String) : Prop := ∃ m ∈ n.nodes, m.isName = true ∧ m.text = text

theorem Mentions.of_isName (h : n.isName = true) : n.Mentions n.text := ⟨n, n.self_mem_nodes, h, rfl⟩

theorem Mentions.of_mem (hc : c ∈ n.nodes) : c.Mentions text → n.Mentions text
  | ⟨m, hm, hName, hText⟩ => ⟨m, mem_nodes_trans n hc hm, hName, hText⟩

/-- What a specifier speaks of stands in the tree. -/
def Writes (n : Node) : Specifier → Prop
  | .byDefault binding | .star binding => n.Mentions binding
  | .named requested binding =>
    (n.Mentions requested ∨ Quoted requested) ∧ (n.Mentions binding ∨ Quoted binding)
  | .whole _ => False
  | .effect => True

theorem Writes.of_mem (hc : c ∈ n.nodes) (h : c.Writes s) : n.Writes s := by
  cases s with
  | byDefault b | star b => exact Mentions.of_mem hc h
  | named x b => exact ⟨h.1.imp_left (.of_mem hc), h.2.imp_left (.of_mem hc)⟩
  | whole b => exact h
  | effect => trivial

theorem Writes.of_child (hc : c ∈ n.children) (h : c.Writes s) : n.Writes s :=
  h.of_mem (mem_nodes_of_child hc c.self_mem_nodes)

theorem writes_of_namedSpecifier? (h : n.Sound) (hKind : n.kind = .importSpecifier)
    (hs : n.namedSpecifier? = some s) : n.Writes s := by
  have hPart : ∀ c r, n.child? r = some c → r = .name ∨ r = .alias → n.Mentions c.text ∨ Quoted c.text := by
    intro c r hc hr
    obtain ⟨hMem, hRole⟩ := mem_of_child? hc
    have hFits := (h.fits n n.self_mem_nodes).imported hKind c hMem
    have hNamed := hFits (by rcases hr with rfl | rfl <;> simp [hRole])
    exact hNamed.imp_left fun hName => .of_mem (mem_nodes_of_child hMem c.self_mem_nodes) (.of_isName hName)
  obtain ⟨c, hc, rfl⟩ := Option.map_eq_some_iff.mp hs
  refine ⟨hPart c .name hc (.inl rfl), ?_⟩
  cases hAlias : n.child? .alias with
  | none => exact hPart c .name hc (.inl rfl)
  | some a => exact hPart a .alias hAlias (.inr rfl)

theorem writes_of_mem_clauseSpecifiers (h : n.Sound) (hs : s ∈ n.clauseSpecifiers) : n.Writes s := by
  have hIdentifier : ∀ c : Node, c.kind = .identifier → c.Mentions c.text :=
    fun c hKind => .of_isName (by rw [isName, hKind]; rfl)
  obtain ⟨c, hc, hs⟩ := List.mem_flatMap.mp hs
  apply Writes.of_child hc
  split at hs
  case h_1 hKind =>
    rw [List.mem_singleton.mp hs]
    exact hIdentifier c hKind
  case h_2 =>
    obtain ⟨d, hd, rfl⟩ := Option.map_eq_some_iff.mp (Option.mem_toList.mp hs)
    have hKind := List.find?_some hd
    exact .of_mem (mem_nodes_of_child (List.mem_of_find?_eq_some hd) d.self_mem_nodes)
      (hIdentifier d (by simpa using hKind))
  case h_3 =>
    obtain ⟨d, hd, hs⟩ := List.mem_filterMap.mp hs
    split at hs
    · rename_i hKind
      exact .of_child hd (writes_of_namedSpecifier? ((h.of_child hc).of_child hd) (by simpa using hKind) hs)
    · cases hs
  case h_4 => cases hs

theorem writes_of_statementImport? (h : n.Sound) (hi : n.statementImport? lines = some i)
    (hs : s ∈ i.specifiers) : n.Writes s := by
  unfold statementImport? at hi
  dsimp only at hi
  split at hi
  · cases hi
  · cases hi
    dsimp only at hs
    split at hs
    · rw [List.mem_singleton.mp hs]
      trivial
    · obtain ⟨c, hc, hs⟩ := List.mem_flatMap.mp hs
      have hChild : c ∈ n.children := (List.mem_filter.mp hc).1
      exact .of_child hChild (writes_of_mem_clauseSpecifiers (h.of_child hChild) hs)

theorem form_of_callImport? {parent : Option Node} (h : n.callImport? lines parent = some i) :
    i.form ≠ .statement := by
  obtain ⟨callee, -, h⟩ := Option.bind_eq_some_iff.mp h
  obtain ⟨name, -, h⟩ := Option.bind_eq_some_iff.mp h
  obtain ⟨args, -, h⟩ := Option.bind_eq_some_iff.mp h
  obtain ⟨source, -, h⟩ := Option.bind_eq_some_iff.mp h
  dsimp only at h
  split at h
  · cases h
    exact nofun
  · split at h
    · cases h
      exact nofun
    · cases h

theorem exists_statement_of_mem_imports (hi : i ∈ n.imports lines) (hForm : i.form = .statement) :
    ∃ m ∈ n.nodes, m.statementImport? lines = some i := by
  rw [imports_eq] at hi
  -- All that the walk has found so far comes from statements of the tree, calls apart.
  refine @walkUnder_keeps (List Import) _ (fun found => ∀ i ∈ found, i.form = .statement →
    ∃ m ∈ n.nodes, m.statementImport? lines = some i) none n ?_ [] nofun i (List.mem_reverse.mp hi) hForm
  intro parent m hm found hFound j hj hForm
  rcases List.mem_append.mp hj with hj | hj
  · have hj := Option.mem_toList.mp hj
    rw [importAt?] at hj
    split at hj
    · exact ⟨m, hm, hj⟩
    · exact absurd hForm (form_of_callImport? hj)
    · cases hj
  · exact hFound j hj hForm

theorem writes_of_mem_imports (h : n.Sound) (hi : i ∈ n.imports lines) (hForm : i.form = .statement)
    (hs : s ∈ i.specifiers) : n.Writes s := by
  obtain ⟨m, hm, hStatement⟩ := exists_statement_of_mem_imports hi hForm
  exact .of_mem hm (writes_of_statementImport? (h.of_mem hm) hStatement hs)

end Imports

end Node

namespace SourceFile

structure Grounded (f : SourceFile) : Prop where
  bare : ∀ e ∈ f.entities, ¬ Quoted e.name
  written : ∀ i ∈ f.imports, i.form = .statement → ∀ s ∈ i.specifiers, f.tree.Writes s
  exportsDefault : ∀ e ∈ f.entities, e.isDefaultExport = true → ∃ x ∈ f.exports, x.isDefault = true

theorem exists_of_parse {path : Path} {source : Source} {clock : Clock} {f : SourceFile}
    (h : parse path source clock = .ok f) : ∃ language tree, Syntax.parse language.dialect source = some tree ∧
      f = ofTree path language (.ofSource source) tree := by
  unfold parse at h
  split at h
  · cases h
  · rename_i language hLanguage
    split at h
    · cases h
    · split at h
      · cases h
      · rename_i tree hTree
        exact ⟨language, tree, hTree, (Except.ok.inj h).symm⟩

/-- A parse that is in time does not depend on the clock. -/
theorem parse_of_clock {path : Path} {source : Source} {clock : Clock} {f : SourceFile}
    (h : parse path source clock = .ok f) : parse path source = .ok f := by
  unfold parse at h ⊢
  split at h
  · cases h
  · split at h
    · cases h
    · exact h

theorem path_of_parse {path : Path} {source : Source} {clock : Clock} {f : SourceFile}
    (h : parse path source clock = .ok f) : f.path = path := by
  obtain ⟨language, tree, -, rfl⟩ := exists_of_parse h
  rfl

theorem grounded_of_parse {path : Path} {text : String} {clock : Clock} {f : SourceFile}
    (h : parse path (.ofString text) clock = .ok f) : f.Grounded := by
  obtain ⟨language, tree, hTree, rfl⟩ := exists_of_parse h
  have hSound := Syntax.sound_of_parse hTree
  constructor
  case bare => exact fun e he => Node.not_quoted_of_mem_entities hSound he
  case written => exact fun i hi hForm s hs => Node.writes_of_mem_imports hSound hi hForm hs
  case exportsDefault => exact fun e he => Node.exists_default_of_mem_entities he

end SourceFile

end ModuleAtlas
