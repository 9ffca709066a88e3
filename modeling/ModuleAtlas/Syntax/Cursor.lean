import ModuleAtlas.Syntax.Node

/-!
# Cursors

A cursor stands on a node and remembers the way it came down: at every level the parent, and the
siblings that are still to come. It moves to the first child, to the next sibling or to the parent,
and never above the node it started from.
-/

namespace ModuleAtlas

set_option autoImplicit false

namespace Node

mutual

/-- How many nodes there are in the tree. -/
def size : Node → Nat
  | leaf _ _ _ _ => 1
  | branch _ _ _ _ cs => sizeAll cs + 1

def sizeAll : List Node → Nat
  | [] => 0
  | c :: rest => size c + sizeAll rest

end

theorem size_eq (n : Node) : n.size = sizeAll n.children + 1 := by
  cases n with
  | leaf k r s t => rfl
  | branch k r s e cs => rfl

end Node

namespace Cursor

/-- A parent on the way down, with the children after the one that the way goes through. -/
structure Level where
  parent : Node
  later : List Node

end Cursor

structure Cursor where
  node : Node
  above : List Cursor.Level

namespace Cursor

def ofNode (n : Node) : Cursor := ⟨n, []⟩

def parent? (c : Cursor) : Option Node := c.above.head?.map Level.parent

def firstChild? (c : Cursor) : Option Cursor :=
  match c.node.children with
  | [] => none
  | child :: later => some ⟨child, ⟨c.node, later⟩ :: c.above⟩

def next? (c : Cursor) : Option Cursor :=
  match c.above with
  | ⟨parent, next :: later⟩ :: above => some ⟨next, ⟨parent, later⟩ :: above⟩
  | _ => none

def up? (c : Cursor) : Option Cursor :=
  match c.above with
  | level :: above => some ⟨level.parent, above⟩
  | [] => none

/-- Where a walk goes next: into the node if it is to be entered and has children, else on to the
next sibling, else back to the parent. Only the parent has been there before. -/
def after? (enter : Bool) (c : Cursor) : Option (Bool × Cursor) :=
  match if enter then c.firstChild? else none with
  | some child => some (true, child)
  | none =>
    match c.next? with
    | some sibling => some (true, sibling)
    | none => c.up?.map fun parent => (false, parent)

/-- The nodes still to come on the levels above. -/
def ahead : List Level → Nat
  | [] => 0
  | level :: above => Node.sizeAll level.later + ahead above

/-- More than the moves a walk can still make. A node that has not been visited may be entered and
left again; from one that has been, the way only leads on and up. -/
def weight (fresh : Bool) (c : Cursor) : Nat :=
  2 * ahead c.above + c.above.length + if fresh then 2 * c.node.size else 1

theorem firstChild?_eq_some {c child : Cursor} (h : c.firstChild? = some child) : ∃ first later,
    c.node.children = first :: later ∧ child = ⟨first, ⟨c.node, later⟩ :: c.above⟩ := by
  rw [firstChild?] at h
  cases hChildren : c.node.children with
  | nil => simp [hChildren] at h
  | cons first later =>
    simp only [hChildren, Option.some.injEq] at h
    exact ⟨first, later, rfl, h.symm⟩

theorem after?_cases {c next : Cursor} {enter unseen : Bool} (h : c.after? enter = some (unseen, next)) :
    (enter = true ∧ unseen = true ∧ c.firstChild? = some next) ∨
      (unseen = true ∧ c.next? = some next) ∨ (unseen = false ∧ c.up? = some next) := by
  rw [after?] at h
  split at h
  · rename_i hChild
    cases h
    obtain ⟨hEnter, hChild⟩ := Option.ite_none_right_eq_some.mp hChild
    exact .inl ⟨hEnter, rfl, hChild⟩
  · split at h
    · rename_i hNext
      cases h
      exact .inr (.inl ⟨rfl, hNext⟩)
    · obtain ⟨parent, hUp, hMove⟩ := Option.map_eq_some_iff.mp h
      cases hMove
      exact .inr (.inr ⟨rfl, hUp⟩)

theorem weight_firstChild? {c child : Cursor} (h : c.firstChild? = some child) :
    child.weight true < c.weight true := by
  obtain ⟨first, later, hChildren, rfl⟩ := firstChild?_eq_some h
  simp only [weight, ahead, List.length_cons, c.node.size_eq, hChildren, Node.sizeAll, if_true]
  omega

theorem weight_next? {c sibling : Cursor} (h : c.next? = some sibling) (fresh : Bool) :
    sibling.weight true < c.weight fresh := by
  obtain ⟨n, above⟩ := c
  have hSize := n.size_eq
  cases above with
  | nil => cases h
  | cons level above =>
    obtain ⟨parent, later⟩ := level
    cases later with
    | nil => cases h
    | cons next later =>
      cases h
      simp only [weight, ahead, Node.sizeAll, List.length_cons, if_true]
      split <;> omega

theorem weight_up? {c parent : Cursor} (h : c.up? = some parent) (fresh : Bool) :
    parent.weight false < c.weight fresh := by
  obtain ⟨n, above⟩ := c
  have hSize := n.size_eq
  cases above with
  | nil => cases h
  | cons level above =>
    cases h
    simp only [weight, ahead, List.length_cons, Bool.false_eq_true, if_false]
    split <;> omega

theorem weight_after? {c next : Cursor} {enter fresh unseen : Bool} (hEnter : enter = true → fresh = true)
    (h : c.after? enter = some (unseen, next)) : next.weight unseen < c.weight fresh := by
  obtain ⟨hTrue, rfl, hChild⟩ | ⟨rfl, hNext⟩ | ⟨rfl, hUp⟩ := after?_cases h
  · rw [hEnter hTrue]
    exact weight_firstChild? hChild
  · exact weight_next? hNext fresh
  · exact weight_up? hUp fresh

end Cursor

end ModuleAtlas
