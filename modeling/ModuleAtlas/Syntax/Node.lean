import ModuleAtlas.Syntax.Kind

/-!
# Syntax trees

A node is a leaf, which holds its text, or a branch over its children. Every node knows
the part it plays in its parent. `WellFormed` says that children stand in order, apart
from each other and inside their parent.
-/

namespace ModuleAtlas

set_option autoImplicit false

inductive Node where
  | leaf (kind : Kind) (role : Option Role) (start : Nat) (text : String)
  | branch (kind : Kind) (role : Option Role) (start stop : Nat) (children : List Node)
  deriving Inhabited, Repr

namespace Node

def kind : Node → Kind
  | leaf k _ _ _ => k
  | branch k _ _ _ _ => k

def role : Node → Option Role
  | leaf _ r _ _ => r
  | branch _ r _ _ _ => r

def start : Node → Nat
  | leaf _ _ s _ => s
  | branch _ _ s _ _ => s

def stop : Node → Nat
  | leaf _ _ s t => s + t.utf8ByteSize
  | branch _ _ _ e _ => e

def children : Node → List Node
  | leaf _ _ _ _ => []
  | branch _ _ _ _ cs => cs

def text? : Node → Option String
  | leaf _ _ _ t => some t
  | branch _ _ _ _ _ => none

def text (n : Node) : String := n.text?.getD ""

def asRole (n : Node) (r : Role) : Node :=
  match n with
  | leaf k _ s t => leaf k (some r) s t
  | branch k _ s e cs => branch k (some r) s e cs

def asKind (n : Node) (k : Kind) : Node :=
  match n with
  | leaf _ r s t => leaf k r s t
  | branch _ r s e cs => branch k r s e cs

/-- Everything but keywords, operators and punctuation. -/
def isNamed (n : Node) : Bool := n.kind != .symbol

def namedChildren (n : Node) : List Node := n.children.filter isNamed

def child? (n : Node) (r : Role) : Option Node :=
  n.children.find? (·.role == some r)

def hasSymbol (n : Node) (text : String) : Bool :=
  n.children.any fun c => c.kind == .symbol && c.text? == some text

def isName (n : Node) : Bool := n.kind.isName

/-- Children in order, apart from each other and inside `[lo, hi]`. -/
def Placed (lo hi : Nat) : List Node → Prop
  | [] => lo ≤ hi
  | c :: rest => lo ≤ c.start ∧ c.start ≤ c.stop ∧ Placed c.stop hi rest

mutual

/-- Children stand in order, apart from each other and inside their parent, all the way down. -/
def WellFormed : Node → Prop
  | leaf _ _ _ _ => True
  | branch _ _ s e cs => Placed s e cs ∧ WellFormedList cs

def WellFormedList : List Node → Prop
  | [] => True
  | c :: rest => WellFormed c ∧ WellFormedList rest

end

/-! ## Closures behind wrappers

Parentheses and type assertions around an expression do not change what it is. The node
inside a wrapper is its first named child, which may be a comment.
-/

mutual

def unwrapped : Node → Node
  | .leaf k r s t => .leaf k r s t
  | .branch k r s e cs =>
    if k.isWrapper then (unwrappedFirst cs).getD (.branch k r s e cs) else .branch k r s e cs

def unwrappedFirst : List Node → Option Node
  | [] => none
  | c :: rest => if c.isNamed then some (unwrapped c) else unwrappedFirst rest

end

def isWrappedClosure (n : Node) : Bool := n.unwrapped.kind.isClosure

/-- Does this initializer bind a function, by itself or handed to a call? -/
def bindsClosure (n : Node) : Bool :=
  let inner := n.unwrapped
  inner.kind.isClosure ||
    (inner.kind == .callExpression &&
      match inner.child? .arguments with
      | some args => args.namedChildren.any isWrappedClosure
      | none => false)

end Node

end ModuleAtlas
