import ModuleAtlas.Syntax.Source
import ModuleAtlas.Syntax.Walk
import ModuleAtlas.Text.Cut

/-!
# Imports of a file

An import is written as a statement, as a call of `require`, or as a call of `import`.
Statements are looked for at any depth and not entered; calls count when a string is among
their arguments.
-/

namespace ModuleAtlas

set_option autoImplicit false

inductive ImportForm where
  | statement | required | onDemand
  deriving DecidableEq, Repr, Inhabited

namespace ImportForm

def label : ImportForm → String
  | statement => "eS6"
  | required => "commonJS"
  | onDemand => "dynamicImport"

end ImportForm

/-- One thing an import asks for, and the name it is bound to here. -/
inductive Specifier where
  | byDefault (binding : String)
  | named (requested binding : String)
  | star (binding : String)
  | whole (binding : String)
  | effect
  deriving DecidableEq, Repr, Inhabited

namespace Specifier

def requested? : Specifier → Option String
  | byDefault _ => some "default"
  | named requested _ => some requested
  | star _ | whole _ | effect => none

def binding? : Specifier → Option String
  | byDefault b | named _ b | star b | whole b => some b
  | effect => none

/-- What is asked of the other module, a star for all of it. -/
def symbol? : Specifier → Option String
  | byDefault _ => some "default"
  | named requested _ => some requested
  | star _ | whole _ => some "*"
  | effect => none

end Specifier

structure Import where
  source : String
  specifiers : List Specifier
  form : ImportForm
  line : Nat
  deriving DecidableEq, Repr, Inhabited

namespace Import

def bindings (i : Import) : List String := i.specifiers.filterMap Specifier.binding?

def symbols (i : Import) : List String := i.specifiers.filterMap Specifier.symbol?

end Import

namespace Node

def unquoted (n : Node) : String :=
  let isQuote (c : Char) : Bool := c == '"' || c == '\'' || c == Char.ofNat 96
  Text.trim isQuote n.text

def namedSpecifier? (n : Node) : Option Specifier :=
  (n.child? .name).map fun name =>
    .named name.text (((n.child? .alias).map text).getD name.text)

def clauseSpecifiers (clause : Node) : List Specifier :=
  clause.children.flatMap fun c =>
    match c.kind with
    | .identifier => [.byDefault c.text]
    | .namespaceImport =>
      ((c.children.find? (·.kind == .identifier)).map fun name => .star name.text).toList
    | .namedImports =>
      c.children.filterMap fun s => if s.kind == .importSpecifier then s.namedSpecifier? else none
    | _ => []

/-- The import of an import statement; none without a module name. -/
def statementImport? (lines : LineTable) (n : Node) : Option Import :=
  let source := ((n.children.filter (·.kind == .string)).getLast?.map unquoted).getD ""
  if source == "" then none
  else
    let found := (n.children.filter (·.kind == .importClause)).flatMap clauseSpecifiers
    some ⟨source, if found.isEmpty then [.effect] else found, .statement, lines.lineAt n.start⟩

def plainName? (n : Node) : Option String :=
  match n.child? .name with
  | some name => if name.kind == .identifier then some name.text else none
  | none => none

def callImport? (lines : LineTable) (parent : Option Node) (n : Node) : Option Import := do
  let callee ← n.child? .function
  let name ← callee.text?
  let args ← n.child? .arguments
  let source ← (args.children.find? (·.kind == .string)).map unquoted
  let line := lines.lineAt n.start
  if name == "require" then
    let declared := parent.bind fun p => if p.kind == .variableDeclarator then p.plainName? else none
    some ⟨source, [(declared.map Specifier.whole).getD .effect], .required, line⟩
  else if name == "import" then some ⟨source, [.effect], .onDemand, line⟩
  else none

def importAt? (lines : LineTable) (parent : Option Node) (n : Node) : Option Import :=
  match n.kind with
  | .importStatement => n.statementImport? lines
  | .callExpression => n.callImport? lines parent
  | _ => none

/-- Put the imports from a cursor on in front of those found before, last one first. Import
statements are not entered. -/
def importsFrom (lines : LineTable) (fresh : Bool) (c : Cursor) (found : List Import) : List Import :=
  let found := if fresh then (c.node.importAt? lines c.parent?).toList ++ found else found
  match _h : c.after? (fresh && c.node.kind != .importStatement) with
  | none => found
  | some (unseen, next) => importsFrom lines unseen next found
termination_by c.weight fresh
decreasing_by exact Cursor.weight_after? (fun hEnter => (Bool.and_eq_true_iff.mp hEnter).1) _h

def imports (lines : LineTable) (root : Node) : List Import :=
  (importsFrom lines true (.ofNode root) []).reverse

end Node

end ModuleAtlas
