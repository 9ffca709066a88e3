import ModuleAtlas.Proofs.File.Exports

/-!
# Values in wrappers

Parentheses and type assertions may be put around a value any number of times. The search for the
value takes the first named node in a wrapper, and that is a comment if one stands before the
expression. So wrappers make no difference to what a variable counts as, unless one of them opens
with a comment, or the types in them hold markup.
-/

namespace ModuleAtlas

set_option autoImplicit false

namespace Kind

theorem isWrapper_of_isComment {k : Kind} : k.isComment = true →
    k.isWrapper = false ∧ k.isClosure = false ∧ k ≠ .callExpression := by
  cases k <;> decide

end Kind

namespace Node

variable {n m v : Node} {ws : List Node}

/-- The expression in a wrapper: the first named node that is no comment. -/
def inner? (n : Node) : Option Node := n.children.find? fun c => c.isNamed && !c.kind.isComment

def opensWithComment (n : Node) : Bool := (n.children.find? isNamed).any (·.kind.isComment)

/-- The value stands in the given wrappers, the outermost of which comes first. -/
inductive Nests (v : Node) : List Node → Node → Prop where
  | bare : Nests v [] v
  | wrap {n m : Node} {ws : List Node} (hKind : n.kind.isWrapper = true) (hInner : n.inner? = some m)
      (h : Nests v ws m) : Nests v (n :: ws) n

section Unwrapped

theorem unwrappedFirst_eq (cs : List Node) : unwrappedFirst cs = (cs.find? isNamed).map unwrapped := by
  induction cs with
  | nil => rfl
  | cons c cs ih =>
    rw [unwrappedFirst, List.find?_cons]
    cases c.isNamed with
    | false => exact ih
    | true => rfl

theorem unwrapped_of_wrapper (h : n.kind.isWrapper = true) :
    n.unwrapped = ((n.children.find? isNamed).map unwrapped).getD n := by
  cases n with
  | leaf k r s t => rfl
  | branch k r s e cs =>
    have hKind : k.isWrapper = true := h
    rw [unwrapped, if_pos hKind, unwrappedFirst_eq, children]

theorem find?_and {α : Type} {p q : α → Bool} {xs : List α} {a : α} (ha : xs.find? p = some a)
    (hq : q a = true) : xs.find? (fun x => p x && q x) = some a := by
  induction xs with
  | nil => cases ha
  | cons x xs ih =>
    rw [List.find?_cons] at ha ⊢
    cases hx : p x with
    | false =>
      rw [hx] at ha
      exact ih ha
    | true =>
      rw [hx] at ha
      cases ha
      rw [hq]
      rfl

/-- Comments before it apart, the expression is the first named node. -/
theorem exists_first (h : n.inner? = some m) : ∃ c, n.children.find? isNamed = some c ∧
    n.opensWithComment = c.kind.isComment ∧ (c.kind.isComment = false → c = m) := by
  have hNamed : m.isNamed = true := by
    have hm := List.find?_some h
    rw [Bool.and_eq_true] at hm
    exact hm.1
  cases hFirst : n.children.find? isNamed with
  | none => exact absurd hNamed (List.find?_eq_none.mp hFirst m (List.mem_of_find?_eq_some h))
  | some c =>
    refine ⟨c, rfl, by rw [opensWithComment, hFirst, Option.any_some], fun hComment => ?_⟩
    have hInner : n.inner? = some c := find?_and hFirst (by rw [hComment]; rfl)
    exact Option.some.inj (hInner.symm.trans h)

theorem bindsClosure_of_inner? (hKind : n.kind.isWrapper = true) (hInner : n.inner? = some m) :
    n.bindsClosure = (m.bindsClosure && !n.opensWithComment) := by
  obtain ⟨c, hFirst, hOpens, hSame⟩ := exists_first hInner
  have hUnwrapped : n.unwrapped = c.unwrapped := by
    rw [unwrapped_of_wrapper hKind, hFirst]
    rfl
  rw [hOpens]
  cases hComment : c.kind.isComment with
  | false =>
    rw [← hSame hComment, bindsClosure, bindsClosure, hUnwrapped, Bool.not_false, Bool.and_true]
  | true =>
    obtain ⟨hWrapper, hClosure, hCall⟩ := Kind.isWrapper_of_isComment hComment
    rw [bindsClosure, hUnwrapped, unwrapped_of_not_wrapper hWrapper]
    simp [hClosure, hCall]

theorem Nests.bindsClosure_eq (h : Nests v ws n) :
    n.bindsClosure = (v.bindsClosure && ws.all fun w => !w.opensWithComment) := by
  induction h with
  | bare => simp
  | wrap hKind hInner h ih =>
    rw [bindsClosure_of_inner? hKind hInner, ih, List.all_cons, Bool.and_assoc]
    congr 1
    rw [Bool.and_comm]

end Unwrapped

section Markup

def seek (p : Kind → Bool) (m : Node) (found : Bool) : Bool × Step :=
  if found then (true, .skip) else if p m.kind then (true, .skip) else (false, .descend)

mutual

theorem walkUnder_seek (p : Kind → Bool) (parent : Option Node) (n : Node) (found : Bool) :
    walkUnder (fun _ => seek p) parent n found = (found || n.nodes.any fun m => p m.kind) := by
  cases n with
  | leaf k r s t => cases found <;> cases hp : p k <;> simp [walkUnder, seek, nodes, kind, hp]
  | branch k r s e cs =>
    cases found with
    | true => rfl
    | false =>
      cases hp : p k with
      | true => simp [walkUnder, seek, nodes, kind, hp]
      | false =>
        have hCs := walkAll_seek p (.branch k r s e cs) cs false
        simpa [walkUnder, seek, nodes, kind, hp] using hCs

theorem walkAll_seek (p : Kind → Bool) (parent : Node) (cs : List Node) (found : Bool) :
    walkAll (fun _ => seek p) parent cs found = (found || (nodesAll cs).any fun m => p m.kind) := by
  cases cs with
  | nil => simp [walkAll, nodesAll]
  | cons c cs =>
    rw [walkAll, walkUnder_seek p _ c, walkAll_seek p parent cs, nodesAll, List.any_append, Bool.or_assoc]

end

theorem contains_eq_any (p : Kind → Bool) (n : Node) : n.contains p = n.nodes.any fun m => p m.kind := by
  have hSeek := walkUnder_seek p none n false
  rw [Bool.false_or] at hSeek
  rw [contains, walk_eq, ← hSeek]
  rfl

theorem contains_of_mem {p : Kind → Bool} (hv : v ∈ n.nodes) (h : v.contains p = true) : n.contains p = true := by
  rw [contains_eq_any, List.any_eq_true] at h ⊢
  obtain ⟨m, hm, hp⟩ := h
  exact ⟨m, mem_nodes_trans n hv hm, hp⟩

theorem Nests.mem_nodes (h : Nests v ws n) : v ∈ n.nodes := by
  induction h with
  | bare => exact v.self_mem_nodes
  | wrap hKind hInner h ih => exact mem_nodes_of_child (List.mem_of_find?_eq_some hInner) ih

end Markup

section Kinds

variable {name : String}

def startsUpper (name : String) : Bool :=
  match name.toList with
  | c :: _ => Letter.isUpper c
  | [] => false

theorem functionKind_eq (name : String) (n : Node) : functionKind name n =
    if startsUpper name && n.contains Kind.isMarkup then .component else .function := rfl

theorem functionKind_eq_iff (hv : v ∈ n.nodes) : functionKind name n = functionKind name v ↔
    (startsUpper name = true → n.contains Kind.isMarkup = true → v.contains Kind.isMarkup = true) := by
  have hMore := @contains_of_mem n v Kind.isMarkup hv
  rw [functionKind_eq, functionKind_eq]
  cases startsUpper name <;> cases hn : n.contains Kind.isMarkup <;> cases hV : v.contains Kind.isMarkup <;>
    simp_all

/-- The wrappers around a value hide nothing and add nothing that counts. -/
def Transparent (v : Node) (ws : List Node) (n : Node) (name : String) : Prop :=
  v.bindsClosure = false ∨ (∀ w ∈ ws, w.opensWithComment = false) ∧
    (startsUpper name = true → n.contains Kind.isMarkup = true → v.contains Kind.isMarkup = true)

theorem Nests.bindsClosure_of_bare (h : Nests v ws n) (hBare : ∀ w ∈ ws, w.opensWithComment = false) :
    n.bindsClosure = v.bindsClosure := by
  have hAll : (ws.all fun w => !w.opensWithComment) = true := by
    rw [List.all_eq_true]
    intro w hw
    rw [hBare w hw, Bool.not_false]
  rw [h.bindsClosure_eq, hAll, Bool.and_true]

theorem Nests.bindsClosure_of_commented (h : Nests v ws n) {w : Node} (hw : w ∈ ws)
    (hOpens : w.opensWithComment = true) : n.bindsClosure = false := by
  have hAll : (ws.all fun w => !w.opensWithComment) = false := by
    rw [List.all_eq_false]
    exact ⟨w, hw, by rw [hOpens]; decide⟩
  rw [h.bindsClosure_eq, hAll, Bool.and_false]

theorem variableKind?_of_closure (h : n.bindsClosure = true) (constant : Bool) (name : String) :
    variableKind? constant name (some n) = some (functionKind name n) := if_pos h

theorem variableKind?_of_not_closure (h : n.bindsClosure = false) (constant : Bool) (name : String) :
    variableKind? constant name (some n) = if constant then some .constant else none :=
  if_neg (Bool.eq_false_iff.mp h)

theorem Nests.variableKind?_eq_iff (h : Nests v ws n) (constant : Bool) (name : String) :
    variableKind? constant name (some n) = variableKind? constant name (some v) ↔ Transparent v ws n name := by
  cases hv : v.bindsClosure with
  | false =>
    have hn : n.bindsClosure = false := by rw [h.bindsClosure_eq, hv, Bool.false_and]
    rw [variableKind?_of_not_closure hn, variableKind?_of_not_closure hv]
    exact iff_of_true rfl (.inl hv)
  | true =>
    rw [variableKind?_of_closure hv]
    by_cases hBare : ∀ w ∈ ws, w.opensWithComment = false
    · rw [variableKind?_of_closure ((h.bindsClosure_of_bare hBare).trans hv), Option.some.injEq,
        functionKind_eq_iff h.mem_nodes]
      have hNever : ¬ v.bindsClosure = false := by simp [hv]
      rw [Transparent, or_iff_right hNever, and_iff_right hBare]
    · have hFalse : ¬ Transparent v ws n name := by simp [Transparent, hv, hBare]
      refine iff_of_false ?_ hFalse
      simp only [not_forall, Bool.not_eq_false] at hBare
      obtain ⟨w, hw, hOpens⟩ := hBare
      rw [variableKind?_of_not_closure (h.bindsClosure_of_commented hw hOpens), functionKind_eq]
      cases constant <;> cases startsUpper name && v.contains Kind.isMarkup <;> simp

end Kinds

section Declarators

theorem bindsClosure_asRole (v : Node) (r : Role) : (v.asRole r).bindsClosure = v.bindsClosure := by
  cases v with
  | leaf k r s t => rfl
  | branch k r s e cs =>
    simp only [bindsClosure, asRole, unwrapped]
    cases hKind : k.isWrapper with
    | false => rfl
    | true =>
      cases unwrappedFirst cs with
      | none => rfl
      | some m => rfl

theorem contains_asRole (p : Kind → Bool) (v : Node) (r : Role) : (v.asRole r).contains p = v.contains p := by
  rw [contains_eq_any, contains_eq_any]
  cases v <;> rfl

theorem variableKind?_asRole (constant : Bool) (name : String) (v : Node) (r : Role) :
    variableKind? constant name (some (v.asRole r)) = variableKind? constant name (some v) := by
  rw [variableKind?, variableKind?, bindsClosure_asRole, functionKind_eq, contains_asRole, functionKind_eq]

variable (lines : LineTable) (bindings : List String) (standing : Standing) (outer : Node)

def varDeclarators (decl : Node) : List Node := decl.namedChildren.filter (·.kind == .variableDeclarator)

def declaratorEntity? (constant : Bool) (d : Node) : Option Entity := do
  let name ← d.plainName?
  let kind ← variableKind? constant name (d.child? .value)
  some (entity lines bindings standing name kind outer d ((d.child? .value).getD d))

theorem declaredEntities_of_variables {decl : Node}
    (hKind : decl.kind ∈ [.lexicalDeclaration, .variableDeclaration]) :
    declaredEntities lines bindings standing outer decl =
      decl.varDeclarators.filterMap (declaratorEntity? lines bindings standing outer decl.isConstant) := by
  simp only [List.mem_cons, List.not_mem_nil, or_false] at hKind
  rcases hKind with hKind | hKind <;> rw [declaredEntities, hKind] <;> rfl

theorem map_declaratorEntity? {d : Node} {name : String} (constant : Bool) (hName : d.plainName? = some name) :
    (declaratorEntity? lines bindings standing outer constant d).map (fun e => (e.name, e.kind)) =
      (variableKind? constant name (d.child? .value)).map (name, ·) := by
  cases hKind : variableKind? constant name (d.child? .value) with
  | none => simp [declaratorEntity?, hName, hKind]
  | some kind => simp [declaratorEntity?, hName, hKind, entity]

/-- Two variable declarations that differ in the initial value of one name. -/
structure Differ (decl decl' : Node) (name : String) (value value' : Node) : Prop where
  kind : decl.kind ∈ [.lexicalDeclaration, .variableDeclaration]
  kind' : decl'.kind ∈ [.lexicalDeclaration, .variableDeclaration]
  constant : decl.isConstant = decl'.isConstant
  declarators : ∃ before d d' after, decl.varDeclarators = before ++ d :: after ∧
    decl'.varDeclarators = before ++ d' :: after ∧ d.plainName? = some name ∧ d'.plainName? = some name ∧
    d.child? .value = some value ∧ d'.child? .value = some value'

theorem Differ.kinds_eq_iff {decl decl' value value' : Node} {name : String}
    (h : Differ decl decl' name value value') :
    (declaredEntities lines bindings standing outer decl).map (fun e => (e.name, e.kind)) =
        (declaredEntities lines bindings standing outer decl').map (fun e => (e.name, e.kind)) ↔
      variableKind? decl.isConstant name (some value) = variableKind? decl.isConstant name (some value') := by
  obtain ⟨before, d, d', after, hDecl, hDecl', hName, hName', hValue, hValue'⟩ := h.declarators
  rw [declaredEntities_of_variables _ _ _ _ h.kind, declaredEntities_of_variables _ _ _ _ h.kind', ← h.constant,
    hDecl, hDecl', List.map_filterMap, List.map_filterMap]
  simp only [List.filterMap_eq_flatMap_toList, List.flatMap_append, List.flatMap_cons,
    List.append_cancel_left_eq, List.append_cancel_right_eq]
  rw [map_declaratorEntity? _ _ _ _ _ hName, map_declaratorEntity? _ _ _ _ _ hName', hValue, hValue']
  cases variableKind? decl.isConstant name (some value) <;>
    cases variableKind? decl.isConstant name (some value') <;> simp

end Declarators

/-- What becomes of a value in wrappers. -/
structure TransparentUnlessCommented (v : Node) (ws : List Node) (n : Node) : Prop where
  closure_iff : n.bindsClosure = v.bindsClosure ↔
    v.bindsClosure = false ∨ ∀ w ∈ ws, w.opensWithComment = false
  kind_iff : ∀ constant name, variableKind? constant name (some n) = variableKind? constant name (some v) ↔
    Transparent v ws n name
  /-- With and without the wrappers a declaration has entities of the same names and kinds. -/
  declared_iff : ∀ lines bindings standing outer decl decl' name, Differ decl decl' name n (v.asRole .value) →
    ((declaredEntities lines bindings standing outer decl).map (fun e => (e.name, e.kind)) =
      (declaredEntities lines bindings standing outer decl').map (fun e => (e.name, e.kind)) ↔
        Transparent v ws n name)
  /-- A closure behind a comment counts as a constant, or not at all. -/
  hidden : v.bindsClosure = true → ∀ w ∈ ws, w.opensWithComment = true →
    ∀ name, variableKind? true name (some n) = some .constant ∧ variableKind? false name (some n) = none

theorem wrappers_transparent_unless_commented (h : Nests v ws n) : TransparentUnlessCommented v ws n := by
  constructor
  case closure_iff =>
    rw [h.bindsClosure_eq]
    cases v.bindsClosure <;> simp
  case kind_iff => exact h.variableKind?_eq_iff
  case declared_iff =>
    intro lines bindings standing outer decl decl' name hDiffer
    rw [hDiffer.kinds_eq_iff, variableKind?_asRole, h.variableKind?_eq_iff]
  case hidden =>
    intro _ w hw hOpens name
    have hn := h.bindsClosure_of_commented hw hOpens
    exact ⟨variableKind?_of_not_closure hn true name, variableKind?_of_not_closure hn false name⟩

def arrow : Node :=
  .branch .arrowFunction none 9 16 [.branch .formalParameters none 9 11 [.leaf .symbol none 9 "(",
    .leaf .symbol none 10 ")"], .leaf .symbol none 12 "=>", .leaf .number none 15 "1"]

def bracketed (before after : List Node) : Node :=
  .branch .parenthesizedExpression none 1 17 (.leaf .symbol none 1 "(" :: before ++ arrow :: after ++
    [.leaf .symbol none 16 ")"])

def asserted (n : Node) : Node :=
  .branch .asExpression (some .value) 1 24 [n, .leaf .symbol none 18 "as", .leaf .predefinedType none 21 "any"]

def remark : Node := .leaf .comment none 2 "/* c */"

theorem asserted_arrow_transparent_unless_commented :
    (Nests arrow [asserted (bracketed [] [remark]), bracketed [] [remark]] (asserted (bracketed [] [remark])) ∧
      arrow.bindsClosure = true ∧ (asserted (bracketed [] [remark])).bindsClosure = true ∧
      TransparentUnlessCommented arrow [asserted (bracketed [] [remark]), bracketed [] [remark]]
        (asserted (bracketed [] [remark]))) ∧
    Nests arrow [bracketed [remark] []] (bracketed [remark] []) ∧ (bracketed [remark] []).bindsClosure = false ∧
    TransparentUnlessCommented arrow [bracketed [remark] []] (bracketed [remark] []) := by
  have hLate : Nests arrow [asserted (bracketed [] [remark]), bracketed [] [remark]]
      (asserted (bracketed [] [remark])) := .wrap rfl rfl (.wrap rfl rfl .bare)
  have hEarly : Nests arrow [bracketed [remark] []] (bracketed [remark] []) := .wrap rfl rfl .bare
  exact ⟨⟨hLate, by decide, by decide, wrappers_transparent_unless_commented hLate⟩, hEarly, by decide,
    wrappers_transparent_unless_commented hEarly⟩

end Node

namespace SourceFile

set_option maxRecDepth 100000 in
/-- A function in parentheses, behind a comment: one variable counts as a constant, the other as nothing. -/
theorem commented_closure_hidden : ∃ f,
    parse (.ofString "/app/a.js") (.ofString "const f = (/* c */ () => 1);\nlet g = (/* c */ () => 1);\n") = .ok f ∧
    f.entities.map (fun e => (e.name, e.kind)) = [("f", .constant)] ∧
    ∃ n ∈ f.tree.nodes, n.kind.isWrapper = true ∧ n.inner?.any Node.bindsClosure = true ∧
      n.bindsClosure = false :=
  exists_parsed _ _ (by decide +kernel)

end SourceFile

end ModuleAtlas
