import ModuleAtlas.Fault
import ModuleAtlas.File.Entity
import ModuleAtlas.File.Export
import ModuleAtlas.Language
import ModuleAtlas.Syntax.Tree

/-!
# Source files

A source file is a path with its syntax tree and what the tree says: imports, exports and
entities. `SourceFile.parse` refuses text that does not follow the grammar or takes too long.
-/

namespace ModuleAtlas

set_option autoImplicit false

structure SourceFile where
  path : Path
  language : Language
  tree : Node
  imports : List Import
  exports : List Export
  entities : List Entity
  deriving Repr, Inhabited

/-- How long a parse may take, in milliseconds, and which files take longer. -/
structure Clock where
  timeout : Nat := 5000
  late : Path → Bool := fun _ => false

def statementBindings (imports : List Import) : List String :=
  Text.setOf ((imports.filter (·.form == .statement)).flatMap Import.bindings)

namespace SourceFile

def ofTree (path : Path) (language : Language) (lines : LineTable) (tree : Node) : SourceFile :=
  let imports := tree.imports lines
  { path, language, tree, imports
    exports := tree.exports lines
    entities := tree.entities lines (statementBindings imports) }

def parse (path : Path) (source : Source) (clock : Clock := {}) : Except Fault SourceFile :=
  match Language.ofPath? path with
  | none => .error (.unsupported path.text)
  | some language =>
    if clock.late path then .error (.timedOut path.text clock.timeout)
    else match Syntax.parse language.dialect source with
    | none => .error (.unparsable path.text)
    | some tree => .ok (ofTree path language (LineTable.ofSource source) tree)

def bindings (f : SourceFile) : List String := statementBindings f.imports

def defaultExport? (f : SourceFile) : Option String :=
  (f.exports.find? fun e => e.isDefault && e.name != "default").map Export.name

end SourceFile

end ModuleAtlas
