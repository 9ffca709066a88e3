import ModuleAtlas.Proofs.File.Names
import ModuleAtlas.Proofs.Syntax.Lines
import ModuleAtlas.Proofs.Syntax.Placement

/-!
# Where entities stand

A function or a class at the top of a file, also one that is exported, is a declaration that
covers the whole statement; in a list of variables every declarator is one of its own. Entities are
drawn from declarations. In a well-formed tree they follow each other without overlap, and each has
the token with its name in its span.
-/

namespace ModuleAtlas

set_option autoImplicit false

/-- The token that a statement declares, and the node that counts as its text. -/
structure Declaration where
  token : Node
  cover : Node

/-- The entity has the name, the span and the line of the declaration. -/
structure Declaration.Draws (x : Declaration) (lines : LineTable) (outer : Node) (e : Entity) : Prop where
  name : e.name = x.token.text
  span : e.span = ⟨x.cover.start, x.cover.stop⟩
  startLine : e.startLine = lines.lineAt outer.start

namespace Node

/-- What a declaring node inside the statement `outer` declares. -/
def declarationsOf (outer decl : Node) : List Declaration :=
  match decl.kind with
  | .functionDeclaration | .generatorFunctionDeclaration
  | .classDeclaration | .abstractClassDeclaration => ((decl.child? .name).map (⟨·, outer⟩)).toList
  | .lexicalDeclaration | .variableDeclaration =>
    (decl.namedChildren.filter (·.kind == .variableDeclarator)).filterMap fun d =>
      ((d.child? .name).filter (·.kind == .identifier)).map (⟨·, d⟩)
  | _ => []

def valueDeclarations (outer value : Node) : List Declaration :=
  match value.unwrapped.kind with
  | .classExpression | .functionExpression | .generatorFunction =>
    ((value.unwrapped.child? .name).map (⟨·, outer⟩)).toList
  | _ => []

def declarations (n : Node) : List Declaration :=
  if n.kind != .exportStatement then declarationsOf n n
  else
    match n.child? .declaration with
    | some decl => declarationsOf n decl
    | none =>
      match n.child? .value with
      | some value => valueDeclarations n value
      | none => []

section Declarations

variable {n outer decl value : Node} {x : Declaration}

/-- The token stands in what the declaration covers, and that in the statement. -/
def Holds (outer : Node) (x : Declaration) : Prop := x.cover ∈ outer.nodes ∧ x.token ∈ x.cover.nodes

theorem child_mem_nodes {c : Node} {r : Role} (h : n.child? r = some c) : c ∈ n.nodes :=
  mem_nodes_of_child (mem_of_child? h).1 c.self_mem_nodes

theorem holds_of_name {c : Node} (hn : n ∈ outer.nodes) (hc : n.child? .name = some c) :
    outer.Holds ⟨c, outer⟩ :=
  ⟨outer.self_mem_nodes, mem_nodes_trans outer hn (child_mem_nodes hc)⟩

theorem holds_of_mem_declarationsOf (hDecl : decl ∈ outer.nodes) (hx : x ∈ declarationsOf outer decl) :
    outer.Holds x := by
  unfold declarationsOf at hx
  split at hx
  case h_1 | h_2 | h_3 | h_4 =>
    obtain ⟨c, hc, rfl⟩ := Option.map_eq_some_iff.mp (Option.mem_toList.mp hx)
    exact holds_of_name hDecl hc
  case h_5 | h_6 =>
    obtain ⟨d, hd, hx⟩ := List.mem_filterMap.mp hx
    obtain ⟨c, hc, rfl⟩ := Option.map_eq_some_iff.mp hx
    have hChild : d ∈ decl.children := mem_children_of_named (List.mem_filter.mp hd).1
    exact ⟨mem_nodes_trans outer hDecl (mem_nodes_of_child hChild d.self_mem_nodes),
      child_mem_nodes (Option.filter_eq_some_iff.mp hc).1⟩
  case h_7 => cases hx

theorem holds_of_mem_valueDeclarations (hValue : value ∈ outer.nodes) (hx : x ∈ valueDeclarations outer value) :
    outer.Holds x := by
  unfold valueDeclarations at hx
  split at hx
  case h_1 | h_2 | h_3 =>
    obtain ⟨c, hc, rfl⟩ := Option.map_eq_some_iff.mp (Option.mem_toList.mp hx)
    exact holds_of_name (mem_nodes_trans outer hValue value.unwrapped_mem_nodes) hc
  case h_4 => cases hx

theorem holds_of_mem_declarations (hx : x ∈ n.declarations) : n.Holds x := by
  unfold declarations at hx
  split at hx
  · exact holds_of_mem_declarationsOf n.self_mem_nodes hx
  · split at hx
    case h_1 decl hDecl => exact holds_of_mem_declarationsOf (child_mem_nodes hDecl) hx
    case h_2 =>
      split at hx
      case h_1 value hValue => exact holds_of_mem_valueDeclarations (child_mem_nodes hValue) hx
      case h_2 => cases hx

end Declarations

section Entities

variable {n outer decl value : Node} {lines : LineTable} {bindings : List String}
  {standing : Standing} {e : Entity}

theorem plainName?_eq_some_iff {name : String} : n.plainName? = some name ↔
    ∃ c, (n.child? .name).filter (·.kind == .identifier) = some c ∧ c.text = name := by
  unfold plainName?
  cases n.child? .name with
  | none => simp
  | some c => cases hKind : c.kind == .identifier <;> simp [Option.filter, hKind]

theorem exists_declaration_of_mem_declaredEntities
    (he : e ∈ declaredEntities lines bindings standing outer decl) : ∃ x ∈ declarationsOf outer decl,
      ∃ kind body, e = entity lines bindings standing x.token.text kind outer x.cover body := by
  unfold declaredEntities at he
  split at he
  case h_1 hKind | h_2 hKind | h_3 hKind | h_4 hKind =>
    simp only [Option.map_map, Option.mem_toList, Option.map_eq_some_iff] at he
    obtain ⟨c, hc, rfl⟩ := he
    exact ⟨⟨c, outer⟩, by simp [declarationsOf, hKind, hc], _, decl, rfl⟩
  case h_5 hKind | h_6 hKind =>
    obtain ⟨d, hd, hEntity⟩ := List.mem_filterMap.mp he
    obtain ⟨name, hName, hRest⟩ := Option.bind_eq_some_iff.mp hEntity
    obtain ⟨kind, -, hRest⟩ := Option.bind_eq_some_iff.mp hRest
    cases hRest
    obtain ⟨c, hc, rfl⟩ := plainName?_eq_some_iff.mp hName
    refine ⟨⟨c, d⟩, ?_, kind, _, rfl⟩
    simp only [declarationsOf, hKind]
    exact List.mem_filterMap.mpr ⟨d, hd, by rw [hc]; rfl⟩
  case h_7 => cases he

theorem exists_declaration_of_mem_valueEntities (he : e ∈ valueEntities lines bindings outer value) :
    ∃ x ∈ valueDeclarations outer value,
      ∃ kind body, e = entity lines bindings .byDefault x.token.text kind outer x.cover body := by
  unfold valueEntities at he
  dsimp only at he
  split at he
  case h_1 => cases he
  case h_2 c hc =>
    split at he
    case h_1 hKind | h_2 hKind | h_3 hKind =>
      rw [List.mem_singleton.mp he]
      exact ⟨⟨c, outer⟩, by simp [valueDeclarations, hKind, hc], _, value.unwrapped, rfl⟩
    case h_4 => cases he

/-- The entities of a statement are those of one declaring node, or of a value. -/
theorem statementEntities_cases (he : e ∈ n.statementEntities lines bindings) :
    (n.kind ≠ .exportStatement ∧ e ∈ declaredEntities lines bindings .internal n n) ∨
      (n.kind = .exportStatement ∧ ∃ decl, n.child? .declaration = some decl ∧ e ∈ declaredEntities lines
        bindings (if n.hasSymbol "default" then .byDefault else .exported) n decl) ∨
      (n.kind = .exportStatement ∧ ∃ value, n.child? .declaration = none ∧
        n.child? .value = some value ∧ e ∈ valueEntities lines bindings n value) := by
  by_cases hKind : n.kind = .exportStatement
  · refine .inr ?_
    rw [statementEntities, if_neg (by simpa using hKind)] at he
    cases hDecl : n.child? .declaration with
    | some decl =>
      rw [hDecl] at he
      exact .inl ⟨hKind, decl, rfl, he⟩
    | none =>
      cases hValue : n.child? .value with
      | some value =>
        rw [hDecl, hValue] at he
        exact .inr ⟨hKind, value, rfl, rfl, he⟩
      | none =>
        rw [hDecl, hValue] at he
        cases he
  · rw [statementEntities, if_pos (bne_iff_ne.mpr hKind)] at he
    exact .inl ⟨hKind, he⟩

theorem exists_entity (he : e ∈ n.statementEntities lines bindings) : ∃ x ∈ n.declarations,
    ∃ standing kind body, e = entity lines bindings standing x.token.text kind n x.cover body := by
  obtain ⟨hKind, he⟩ | ⟨hKind, decl, hDecl, he⟩ | ⟨hKind, value, hDecl, hValue, he⟩ :=
    statementEntities_cases he
  · obtain ⟨x, hx, kind, body, rfl⟩ := exists_declaration_of_mem_declaredEntities he
    exact ⟨x, by rwa [declarations, if_pos (bne_iff_ne.mpr hKind)], _, kind, body, rfl⟩
  · obtain ⟨x, hx, kind, body, rfl⟩ := exists_declaration_of_mem_declaredEntities he
    exact ⟨x, by simpa [declarations, hKind, hDecl] using hx, _, kind, body, rfl⟩
  · obtain ⟨x, hx, kind, body, rfl⟩ := exists_declaration_of_mem_valueEntities he
    exact ⟨x, by simpa [declarations, hKind, hDecl, hValue] using hx, _, kind, body, rfl⟩

theorem exists_declaration (he : e ∈ n.statementEntities lines bindings) :
    ∃ x ∈ n.declarations, x.Draws lines n e := by
  obtain ⟨x, hx, standing, kind, body, rfl⟩ := exists_entity he
  exact ⟨x, hx, rfl, rfl, rfl⟩

end Entities

end Node

/-- The entity ends before another one starts, and starts on a later line or the same one. -/
structure Entity.Before (e later : Entity) : Prop where
  apart : e.span.stop ≤ later.span.start
  lines : e.startLine ≤ later.startLine

namespace Node

variable {n outer decl value : Node} {lines : LineTable} {bindings : List String}
  {standing : Standing} {e : Entity}

theorem pairwise_toList {α : Type} {R : α → α → Prop} (o : Option α) : o.toList.Pairwise R := by
  cases o with
  | none => exact .nil
  | some a => exact List.pairwise_singleton R a

/-- Declarators follow each other, and other declarations have one entity at most. -/
theorem pairwise_declaredEntities (h : decl.WellFormed) :
    (declaredEntities lines bindings standing outer decl).Pairwise Entity.Before := by
  unfold declaredEntities
  split
  case h_1 | h_2 | h_3 | h_4 => exact pairwise_toList _
  case h_5 | h_6 =>
    refine List.Pairwise.filterMap _ ?_ ((h.pairwise_children.filter _).filter _)
    intro d d' hApart e he e' he'
    obtain ⟨name, -, he⟩ := Option.bind_eq_some_iff.mp he
    obtain ⟨kind, -, he⟩ := Option.bind_eq_some_iff.mp he
    obtain ⟨name', -, he'⟩ := Option.bind_eq_some_iff.mp he'
    obtain ⟨kind', -, he'⟩ := Option.bind_eq_some_iff.mp he'
    cases he
    cases he'
    exact ⟨hApart, Nat.le_refl _⟩
  case h_7 => exact .nil

theorem pairwise_valueEntities : (valueEntities lines bindings outer value).Pairwise Entity.Before := by
  unfold valueEntities
  dsimp only
  split
  case h_1 => exact .nil
  case h_2 =>
    split
    case h_1 | h_2 | h_3 => exact List.pairwise_singleton _ _
    case h_4 => exact .nil

theorem pairwise_statementEntities (h : n.WellFormed) :
    (n.statementEntities lines bindings).Pairwise Entity.Before := by
  unfold statementEntities
  split
  · exact pairwise_declaredEntities h
  · split
    case h_1 decl hDecl => exact pairwise_declaredEntities (h.of_child (mem_of_child? hDecl).1)
    case h_2 =>
      split
      case h_1 => exact pairwise_valueEntities
      case h_2 => exact .nil

theorem inside_of_mem_statementEntities (h : n.WellFormed) (he : e ∈ n.statementEntities lines bindings) :
    n.start ≤ e.span.start ∧ e.span.stop ≤ n.stop ∧ e.startLine = lines.lineAt n.start := by
  obtain ⟨x, hx, hDraws⟩ := exists_declaration he
  have hInside := h.inside (holds_of_mem_declarations hx).1
  rw [hDraws.span]
  exact ⟨hInside.start_le, hInside.stop_le, hDraws.startLine⟩

theorem pairwise_entities (source : Source) (h : n.WellFormed) :
    (n.entities (.ofSource source) bindings).Pairwise Entity.Before := by
  have hChild : ∀ c ∈ n.namedChildren, c.WellFormed := fun c hc => h.of_child (mem_children_of_named hc)
  rw [entities, List.pairwise_flatMap]
  constructor
  · exact fun c hc => pairwise_statementEntities (hChild c hc)
  · refine (h.pairwise_children.filter _).imp_of_mem fun {c d} hc hd hApart e he e' he' => ?_
    obtain ⟨-, hStop, hLine⟩ := inside_of_mem_statementEntities (hChild c hc) he
    obtain ⟨hStart, -, hLine'⟩ := inside_of_mem_statementEntities (hChild d hd) he'
    constructor
    case apart => exact Nat.le_trans hStop (Nat.le_trans hApart hStart)
    case lines =>
      rw [hLine, hLine']
      exact LineTable.lineAt_mono source (Nat.le_trans (hChild c hc).inside_self.proper hApart)

/-- What is declared at the top of the tree are names, none of them empty. -/
def NamesDeclarations (tree : Node) : Prop :=
  ∀ n ∈ tree.namedChildren, ∀ x ∈ n.declarations, x.token.isName = true ∧ x.token.text ≠ ""

instance (tree : Node) : Decidable tree.NamesDeclarations :=
  inferInstanceAs (Decidable (∀ n ∈ tree.namedChildren, ∀ x ∈ n.declarations, _ ∧ _))

theorem start_lt_stop_of_text (h : n.text ≠ "") : n.start < n.stop := by
  cases n with
  | leaf k r s t => exact Nat.lt_add_of_pos_right (Nat.pos_of_ne_zero (by simpa [text, text?] using h))
  | branch k r s e cs => exact absurd rfl h

theorem Holds.contains {x : Declaration} (hHolds : n.Holds x) (h : n.WellFormed)
    (hText : x.token.text ≠ "") (hDraws : x.Draws lines outer e) :
    e.span.contains x.token.start = true := by
  have hInside := (h.of_mem hHolds.1).inside hHolds.2
  have hProper := start_lt_stop_of_text hText
  rw [hDraws.span, Span.contains, Bool.and_eq_true, decide_eq_true_iff, decide_eq_true_iff]
  exact ⟨hInside.start_le, Nat.lt_of_lt_of_le hProper hInside.stop_le⟩

end Node

end ModuleAtlas
