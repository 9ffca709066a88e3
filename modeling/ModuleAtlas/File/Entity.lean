import ModuleAtlas.File.Import
import ModuleAtlas.Syntax.Node
import ModuleAtlas.Syntax.Walk
import ModuleAtlas.Text.Letter
import ModuleAtlas.Collection

/-!
# Entities of a file

An entity is a named declaration at the top of a file: a function, a component (a function
with a capital name and markup in it), a class or a constant. A variable counts when it is
constant or holds a function. Declarations that take a name apart into several are none.
-/

namespace ModuleAtlas

set_option autoImplicit false

inductive EntityKind where
  | function | component | class_ | constant
  deriving DecidableEq, Repr, Inhabited

namespace EntityKind

def label : EntityKind → String
  | function => "function"
  | component => "component"
  | class_ => "class"
  | constant => "constant"

end EntityKind

structure Span where
  start : Nat
  stop : Nat
  deriving DecidableEq, Repr, Inhabited

def Span.contains (s : Span) (position : Nat) : Bool :=
  decide (s.start ≤ position) && decide (position < s.stop)

structure Entity where
  name : String
  kind : EntityKind
  /-- The first line, with the `export` before the declaration. -/
  startLine : Nat
  endLine : Nat
  exported : Bool
  isDefaultExport : Bool
  complexity : Nat
  /-- The bindings of imports that the declaration mentions. -/
  dependencies : List String
  /-- All names in the declaration. -/
  references : List String
  span : Span
  deriving DecidableEq, Repr, Inhabited

namespace Entity

def isFunctionLike (e : Entity) : Bool := e.kind == .function || e.kind == .component

end Entity

inductive Standing where
  | internal | exported | byDefault
  deriving DecidableEq, Repr, Inhabited

namespace Node

def isConstant (n : Node) : Bool :=
  match n.children with
  | first :: _ => first.text? == some "const"
  | [] => false

/-- Function or component: the latter has a capital name and markup in its body. -/
def functionKind (name : String) (body : Node) : EntityKind :=
  let capital := match name.toList with
    | c :: _ => Letter.isUpper c
    | [] => false
  if capital && body.contains Kind.isMarkup then .component else .function

/-- The entity of a declaration that covers `span` inside the statement `outer`. -/
def entity (lines : LineTable) (bindings : List String) (standing : Standing) (name : String)
    (kind : EntityKind) (outer span body : Node) : Entity :=
  let references := Text.setOf (span.tokens.map Token.text)
  { name, kind, references
    startLine := lines.lineAt outer.start
    endLine := max (lines.lineAt span.stop) (lines.lineAt outer.start)
    exported := standing != .internal
    isDefaultExport := standing == .byDefault
    complexity := body.complexity
    dependencies := references.filter bindings.contains
    span := ⟨span.start, span.stop⟩ }

def variableKind? (constant : Bool) (name : String) (value : Option Node) : Option EntityKind :=
  match value with
  | some v => if v.bindsClosure then some (functionKind name v)
    else if constant then some .constant else none
  | none => if constant then some .constant else none

def declaredEntities (lines : LineTable) (bindings : List String) (standing : Standing)
    (outer decl : Node) : List Entity :=
  let name? := (decl.child? .name).map text
  match decl.kind with
  | .functionDeclaration | .generatorFunctionDeclaration =>
    (name?.map fun name =>
      entity lines bindings standing name (functionKind name decl) outer outer decl).toList
  | .classDeclaration | .abstractClassDeclaration =>
    (name?.map fun name => entity lines bindings standing name .class_ outer outer decl).toList
  | .lexicalDeclaration | .variableDeclaration =>
    (decl.namedChildren.filter (·.kind == .variableDeclarator)).filterMap fun d => do
      let name ← d.plainName?
      let value := d.child? .value
      let kind ← variableKind? decl.isConstant name value
      some (entity lines bindings standing name kind outer d (value.getD d))
  | _ => []

/-- The entity of a value exported by default: a class or function with a name. -/
def valueEntities (lines : LineTable) (bindings : List String) (outer value : Node) :
    List Entity :=
  let value := value.unwrapped
  match value.child? .name with
  | none => []
  | some name =>
    match value.kind with
    | .classExpression => [entity lines bindings .byDefault name.text .class_ outer outer value]
    | .functionExpression | .generatorFunction =>
      [entity lines bindings .byDefault name.text (functionKind name.text value) outer outer value]
    | _ => []

def statementEntities (lines : LineTable) (bindings : List String) (n : Node) : List Entity :=
  if n.kind != .exportStatement then declaredEntities lines bindings .internal n n
  else
    match n.child? .declaration with
    | some decl =>
      let standing : Standing := if n.hasSymbol "default" then .byDefault else .exported
      declaredEntities lines bindings standing n decl
    | none =>
      match n.child? .value with
      | some value => valueEntities lines bindings n value
      | none => []

def entities (lines : LineTable) (bindings : List String) (root : Node) : List Entity :=
  root.namedChildren.flatMap (statementEntities lines bindings)

end Node

end ModuleAtlas
