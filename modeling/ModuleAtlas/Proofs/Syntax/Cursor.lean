import ModuleAtlas.Syntax.Walk

/-!
# What the moves of a cursor amount to

Where a walk comes to a node for the first time, it goes on as if it had been through the whole tree
below it and were back. So it visits what the recursion over the tree visits: the node, then, unless
it is to be left out, what is below each child in turn.
-/

namespace ModuleAtlas.Node

set_option autoImplicit false

variable {σ : Type}

mutual

/-- Visit a node on the given way down, then what is below it. -/
def visitBelow (visit : Cursor → σ → σ × Step) (above : List Cursor.Level) : Node → σ → σ
  | .leaf k r s t, state => (visit ⟨.leaf k r s t, above⟩ state).1
  | .branch k r s e cs, state =>
    match visit ⟨.branch k r s e cs, above⟩ state with
    | (state, .skip) => state
    | (state, .descend) => visitAll visit (.branch k r s e cs) above cs state

def visitAll (visit : Cursor → σ → σ × Step) (parent : Node) (above : List Cursor.Level) :
    List Node → σ → σ
  | [], state => state
  | c :: rest, state =>
    visitAll visit parent above rest (visitBelow visit (⟨parent, rest⟩ :: above) c state)

end

mutual

/-- Visit a node below a given parent, then its children. -/
def walkUnder (visit : Option Node → Node → σ → σ × Step) (parent : Option Node) : Node → σ → σ
  | .leaf k r s t, state => (visit parent (.leaf k r s t) state).1
  | .branch k r s e cs, state =>
    match visit parent (.branch k r s e cs) state with
    | (state, .skip) => state
    | (state, .descend) => walkAll visit (.branch k r s e cs) cs state

def walkAll (visit : Option Node → Node → σ → σ × Step) (parent : Node) : List Node → σ → σ
  | [], state => state
  | c :: rest, state => walkAll visit parent rest (walkUnder visit (some parent) c state)

end

section Loop

variable (visit : Cursor → σ → σ × Step)

theorem walkFrom_eq (fresh : Bool) (c : Cursor) (state : σ) :
    walkFrom visit fresh c state =
      let visited := if fresh then visit c state else (state, .skip)
      (c.after? (visited.2 == .descend)).elim visited.1 fun move =>
        walkFrom visit move.1 move.2 visited.1 := by
  rw [walkFrom]
  split
  · rename_i h
    simp only [h, Option.elim_none]
  · rename_i h
    simp only [h, Option.elim_some]

theorem walkFrom_fresh (c : Cursor) (state : σ) :
    walkFrom visit true c state =
      (c.after? ((visit c state).2 == .descend)).elim (visit c state).1 fun move =>
        walkFrom visit move.1 move.2 (visit c state).1 :=
  walkFrom_eq visit true c state

theorem walkFrom_again (c : Cursor) (state : σ) :
    walkFrom visit false c state =
      (c.after? false).elim state fun move => walkFrom visit move.1 move.2 state :=
  walkFrom_eq visit false c state

/-- Where nothing is below the node or it is left out, the walk goes on as from a node it is back at. -/
theorem walkFrom_of_after? {c : Cursor} {state : σ}
    (h : c.after? ((visit c state).2 == .descend) = c.after? false) :
    walkFrom visit true c state = walkFrom visit false c (visit c state).1 := by
  rw [walkFrom_fresh, h, walkFrom_again]

mutual

theorem walkFrom_below (above : List Cursor.Level) (n : Node) (state : σ) :
    walkFrom visit true ⟨n, above⟩ state =
      walkFrom visit false ⟨n, above⟩ (visitBelow visit above n state) := by
  cases n with
  | leaf k r s t =>
    rw [visitBelow]
    apply walkFrom_of_after?
    cases (visit ⟨leaf k r s t, above⟩ state).2 <;> rfl
  | branch k r s e cs =>
    rw [visitBelow]
    split
    · rename_i after hVisit
      rw [walkFrom_of_after? visit (by rw [hVisit]; rfl), hVisit]
    · rename_i after hVisit
      cases cs with
      | nil => rw [walkFrom_of_after? visit (by rw [hVisit]; rfl), hVisit, visitAll]
      | cons c rest =>
        calc walkFrom visit true ⟨branch k r s e (c :: rest), above⟩ state
            = walkFrom visit true ⟨c, ⟨branch k r s e (c :: rest), rest⟩ :: above⟩ after := by
              rw [walkFrom_fresh, hVisit]; rfl
          _ = _ := by rw [walkFrom_below _ c, walkFrom_later _ _ c rest, visitAll]

/-- Back at a child, the walk goes through the later siblings and comes back to the parent. -/
theorem walkFrom_later (parent : Node) (above : List Cursor.Level) (c : Node) (later : List Node) (state : σ) :
    walkFrom visit false ⟨c, ⟨parent, later⟩ :: above⟩ state =
      walkFrom visit false ⟨parent, above⟩ (visitAll visit parent above later state) := by
  cases later with
  | nil => rw [walkFrom_again]; rfl
  | cons d rest =>
    calc walkFrom visit false ⟨c, ⟨parent, d :: rest⟩ :: above⟩ state
        = walkFrom visit true ⟨d, ⟨parent, rest⟩ :: above⟩ state := by rw [walkFrom_again]; rfl
      _ = _ := by rw [walkFrom_below _ d, walkFrom_later parent above d rest, visitAll]

end

theorem walkFrom_ofNode (n : Node) (state : σ) :
    walkFrom visit true (.ofNode n) state = visitBelow visit [] n state := by
  rw [Cursor.ofNode, walkFrom_below, walkFrom_again]
  rfl

end Loop

section Parent

variable (visit : Option Node → Node → σ → σ × Step)

mutual

theorem visitBelow_eq_walkUnder (above : List Cursor.Level) (n : Node) (state : σ) :
    visitBelow (fun c => visit c.parent? c.node) above n state =
      walkUnder visit (above.head?.map Cursor.Level.parent) n state := by
  cases n with
  | leaf k r s t => rfl
  | branch k r s e cs =>
    have hParent : Cursor.parent? ⟨branch k r s e cs, above⟩ = above.head?.map Cursor.Level.parent := rfl
    cases hVisit : visit (above.head?.map Cursor.Level.parent) (branch k r s e cs) state with
    | mk after step =>
      cases step with
      | skip => simp only [visitBelow, walkUnder, hParent, hVisit]
      | descend =>
        simp only [visitBelow, walkUnder, hParent, hVisit]
        exact visitAll_eq_walkAll _ above cs after

theorem visitAll_eq_walkAll (parent : Node) (above : List Cursor.Level) (cs : List Node) (state : σ) :
    visitAll (fun c => visit c.parent? c.node) parent above cs state = walkAll visit parent cs state := by
  cases cs with
  | nil => rfl
  | cons c rest =>
    rw [visitAll, walkAll, visitBelow_eq_walkUnder, visitAll_eq_walkAll parent above rest]
    rfl

end

theorem walkFrom_eq_walkUnder (n : Node) (state : σ) :
    walkFrom (fun c => visit c.parent? c.node) true (.ofNode n) state = walkUnder visit none n state := by
  rw [walkFrom_ofNode, visitBelow_eq_walkUnder]
  rfl

end Parent

theorem walk_eq (visit : Node → σ → σ × Step) (n : Node) (state : σ) :
    n.walk visit state = walkUnder (fun _ => visit) none n state :=
  walkFrom_eq_walkUnder (fun _ => visit) n state

end ModuleAtlas.Node
