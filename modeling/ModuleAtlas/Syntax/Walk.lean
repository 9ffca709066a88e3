import ModuleAtlas.Syntax.Cursor

/-!
# Walking a tree

`walk` takes a cursor through a node and everything below it, parents before children and
children in order. The visitor carries a state and may leave out what is below a node.
-/

namespace ModuleAtlas.Node

set_option autoImplicit false

inductive Step where
  | descend
  | skip
  deriving DecidableEq, Repr

variable {σ : Type}

theorem fresh_of_descend (visit : Cursor → σ → σ × Step) {fresh : Bool} {c : Cursor} {state : σ}
    (h : ((if fresh then visit c state else (state, .skip)).2 == .descend) = true) : fresh = true := by
  cases fresh with
  | false => exact h
  | true => rfl

/-- Go on from a cursor: visit the node unless the walk comes back to it, then move on. -/
def walkFrom (visit : Cursor → σ → σ × Step) (fresh : Bool) (c : Cursor) (state : σ) : σ :=
  let visited := if fresh then visit c state else (state, .skip)
  match _h : c.after? (visited.2 == .descend) with
  | none => visited.1
  | some (unseen, next) => walkFrom visit unseen next visited.1
termination_by c.weight fresh
decreasing_by exact Cursor.weight_after? (fresh_of_descend visit) _h

def walk (visit : Node → σ → σ × Step) (n : Node) (state : σ) : σ :=
  walkFrom (fun c => visit c.node) true (.ofNode n) state

structure Token where
  text : String
  start : Nat
  deriving DecidableEq, Repr, Inhabited

/-- The name tokens of a tree, in order, without those below nodes to leave out. -/
def tokensBut (leaveOut : Node → Bool) (n : Node) : List Token :=
  (n.walk (fun m found =>
    if leaveOut m then (found, .skip)
    else if m.isName then (⟨m.text, m.start⟩ :: found, .descend)
    else (found, .descend)) []).reverse

def tokens (n : Node) : List Token := n.tokensBut fun _ => false

def contains (p : Kind → Bool) (n : Node) : Bool :=
  n.walk (fun m found =>
    if found then (true, .skip) else if p m.kind then (true, .skip) else (false, .descend)) false

/-! ## Cyclomatic complexity

One, and one more for every decision in the tree: conditionals, loops, case labels, catch
clauses and short-circuit operators. Functions inside count for what is around them.
-/

def isBranching : Kind → Bool
  | .ifStatement | .ternaryExpression | .forStatement | .forInStatement | .whileStatement
  | .doStatement | .switchCase | .catchClause => true
  | _ => false

def shortCircuits : List String := ["&&", "||", "??", "&&=", "||=", "??="]

def isShortCircuit (n : Node) : Bool :=
  (n.kind == .binaryExpression || n.kind == .augmentedAssignmentExpression) &&
    match n.child? .operator with
    | some op => shortCircuits.contains op.text
    | none => false

def isDecision (n : Node) : Bool := isBranching n.kind || n.isShortCircuit

def complexity (n : Node) : Nat :=
  n.walk (fun m count => (if m.isDecision then count + 1 else count, .descend)) 1

end ModuleAtlas.Node
