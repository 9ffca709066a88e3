import ModuleAtlas.Program.Basic

/-!
# Where names occur

The names of a file are its tokens, and for a token bound by an import also the name that
the binding has in the other module. Scopes do not count: a name that occurs is used.
-/

namespace ModuleAtlas

set_option autoImplicit false

structure UsageIndex where
  occurrences : Table String (List Path)
  deriving Inhabited

namespace Program

/-- What a binding is called where it is declared, when that is another name. -/
def declaredAs? (p : Program) (f : SourceFile) (i : Import) : Specifier → Option (String × String)
  | .named requested binding => if requested == binding then none else some (binding, requested)
  | .byDefault binding =>
    match ((p.resolve f.path i.source).bind p.file?).bind SourceFile.defaultExport? with
    | some declared => if declared == binding then none else some (binding, declared)
    | none => none
  | _ => none

def symbolBindings (p : Program) (f : SourceFile) : List (String × String) :=
  (f.imports.filter (·.form == .statement)).flatMap fun i =>
    i.specifiers.filterMap (p.declaredAs? f i)

/-- The declared name of a binding; a later import wins. -/
def declaredName? (bindings : List (String × String)) (name : String) : Option String :=
  (bindings.reverse.find? (·.1 == name)).map Prod.snd

def names (p : Program) (f : SourceFile) : List String :=
  let bindings := p.symbolBindings f
  let tokens := Text.setOf (f.tree.tokens.map Node.Token.text)
  Text.setOf (tokens ++ tokens.filterMap (declaredName? bindings))

def usage (p : Program) : UsageIndex :=
  ⟨Table.gather (· == ·) (fun files file => file.insertInto files) []
    (p.files.flatMap fun f => (p.names f).map (·, f.path))⟩

end Program

namespace UsageIndex

def filesOf (u : UsageIndex) (name : String) : List Path :=
  (u.occurrences.value? (· == ·) name).getD []

def occursIn (u : UsageIndex) (name : String) (file : Path) : Bool :=
  (u.filesOf name).any (·.same file)

def occursOutside (u : UsageIndex) (name : String) (file : Path) : Bool :=
  (u.filesOf name).any (!·.same file)

def size (u : UsageIndex) : Nat := u.occurrences.length

end UsageIndex

end ModuleAtlas
