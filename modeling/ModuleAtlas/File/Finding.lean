import ModuleAtlas.File.SourceFile

/-!
# Findings that need one file only

Bindings of imports that nothing mentions outside import statements, functions above a
complexity, and names declared more than once.
-/

namespace ModuleAtlas

set_option autoImplicit false

structure UnusedImport where
  file : Path
  name : String
  /-- The name in the other module, a star for all of it. -/
  requested : String
  line : Nat
  module : String
  deriving DecidableEq, Repr, Inhabited

structure ComplexityWarning where
  file : Path
  name : String
  kind : EntityKind
  line : Nat
  complexity : Nat
  threshold : Nat
  deriving DecidableEq, Repr, Inhabited

namespace SourceFile

def tokensOutsideImports (f : SourceFile) : List Node.Token :=
  f.tree.tokensBut (·.kind == .importStatement)

def unusedImports (f : SourceFile) : List UnusedImport :=
  let used := f.tokensOutsideImports.map Node.Token.text
  (f.imports.filter (·.form == .statement)).flatMap fun i =>
    i.specifiers.filterMap fun s =>
      match s.binding? with
      | some name =>
        if used.contains name then none
        else some ⟨f.path, name, s.requested?.getD "*", i.line, i.source⟩
      | none => none

def complexityWarnings (threshold : Nat) (f : SourceFile) : List ComplexityWarning :=
  (f.entities.filter fun e => e.isFunctionLike && decide (threshold < e.complexity)).map fun e =>
    ⟨f.path, e.name, e.kind, e.startLine, e.complexity, threshold⟩

def linesOf (f : SourceFile) (name : String) : List Nat :=
  (f.entities.filter (·.name == name)).map Entity.startLine

/-- One diagnostic for each name that several entities have, in text order. -/
def duplicateDeclarations (f : SourceFile) : List Diagnostic :=
  (Text.setOf (f.entities.map Entity.name)).filterMap fun name =>
    let lines := f.linesOf name
    if 1 < lines.length then some (.duplicateDeclaration f.path name lines) else none

end SourceFile

end ModuleAtlas
