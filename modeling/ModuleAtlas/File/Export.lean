import ModuleAtlas.File.Import

/-!
# Exports of a file

Only statements at the top of a file export. An export of a declaration gives the names
declared, an export of a value one name, an export clause one name for each specifier.
-/

namespace ModuleAtlas

set_option autoImplicit false

inductive ExportKind where
  | function | class_ | variable_ | type | interface | enum | value | reexport
  deriving DecidableEq, Repr, Inhabited

namespace ExportKind

def label : ExportKind → String
  | function => "function"
  | class_ => "class"
  | variable_ => "variable"
  | type => "type"
  | interface => "interface"
  | enum => "enum"
  | value => "value"
  | reexport => "reexport"

end ExportKind

structure Export where
  name : String
  kind : ExportKind
  isDefault : Bool
  line : Nat
  /-- The module a re-export takes the name from. -/
  source : Option String
  deriving DecidableEq, Repr, Inhabited

namespace Node

def declaratorNames (n : Node) : List String :=
  (n.namedChildren.filter (·.kind == .variableDeclarator)).filterMap plainName?

def declaredNames (n : Node) : List (String × ExportKind) :=
  let one (kind : ExportKind) := ((n.child? .name).map fun name => (name.text, kind)).toList
  match n.kind with
  | .functionDeclaration | .generatorFunctionDeclaration | .functionSignature => one .function
  | .classDeclaration | .abstractClassDeclaration => one .class_
  | .typeAliasDeclaration => one .type
  | .interfaceDeclaration => one .interface
  | .enumDeclaration => one .enum
  | .lexicalDeclaration | .variableDeclaration => n.declaratorNames.map (·, .variable_)
  | _ => []

def valueExport (value : Node) : String × ExportKind :=
  let own := (value.child? .name).map text
  match value.kind with
  | .identifier => (value.text, .value)
  | .classExpression => (own.getD "default", .class_)
  | .functionExpression | .generatorFunction => (own.getD "default", .function)
  | _ => ("default", .value)

def clauseExports (kind : ExportKind) (line : Nat) (source : Option String) (clause : Node) :
    List Export :=
  (clause.namedChildren.filter (·.kind == .exportSpecifier)).filterMap fun s =>
    ((s.child? .alias).orElse fun _ => s.child? .name).map fun name =>
      ⟨name.text, kind, name.text == "default", line, source⟩

/-- The export of a star bound to a name. -/
def starExports (kind : ExportKind) (line : Nat) (source : Option String) (star : Node) :
    List Export :=
  ((star.namedChildren.find? (·.kind == .identifier)).map fun name =>
    (⟨name.text, kind, false, line, source⟩ : Export)).toList

def statementExports (lines : LineTable) (n : Node) : List Export :=
  let line := lines.lineAt n.start
  let source := (n.child? .source).map unquoted
  match n.child? .declaration with
  | some decl =>
    decl.declaredNames.map fun (name, kind) => ⟨name, kind, n.hasSymbol "default", line, none⟩
  | none =>
    match n.child? .value with
    | some value =>
      let (name, kind) := value.valueExport
      [⟨name, kind, true, line, none⟩]
    | none =>
      let kind : ExportKind := if source.isSome then .reexport else .value
      let named := n.children.flatMap fun c =>
        match c.kind with
        | .exportClause => c.clauseExports kind line source
        | .namespaceExport => c.starExports kind line source
        | _ => []
      if named.isEmpty && source.isSome && n.hasSymbol "*" then
        [⟨"*", .reexport, false, line, source⟩]
      else named

def exports (lines : LineTable) (root : Node) : List Export :=
  (root.namedChildren.filter (·.kind == .exportStatement)).flatMap (statementExports lines)

end Node

end ModuleAtlas
