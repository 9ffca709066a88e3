import ModuleAtlas.Program.Usage

/-!
# Unused entities

An entity is unused when its name occurs in no other file and, in its own file, only inside
its declaration.
-/

namespace ModuleAtlas

set_option autoImplicit false

structure UnusedFunction where
  file : Path
  name : String
  line : Nat
  exported : Bool
  complexity : Nat
  deriving DecidableEq, Repr, Inhabited

structure DeadCode where
  file : Path
  name : String
  kind : EntityKind
  line : Nat
  exported : Bool
  deriving DecidableEq, Repr, Inhabited

namespace SourceFile

def positions (f : SourceFile) (names : List String) : Table String (List Nat) :=
  Table.gather (· == ·) (fun starts start => starts ++ [start]) []
    ((f.tree.tokens.filter fun t => names.contains t.text).map fun t => (t.text, t.start))

/-- Does a token with the name of the entity stand outside its declaration? -/
def mentionedOutside (positions : Table String (List Nat)) (e : Entity) : Bool :=
  ((positions.value? (· == ·) e.name).getD []).any fun start => !e.span.contains start

def unusedEntities (u : UsageIndex) (kinds : List EntityKind) (f : SourceFile) : List Entity :=
  let positions := f.positions ((f.entities.filter fun e => kinds.contains e.kind).map Entity.name)
  f.entities.filter fun e =>
    kinds.contains e.kind && !u.occursOutside e.name f.path && !mentionedOutside positions e

def unusedFunctionsOf (u : UsageIndex) (kind : EntityKind) (f : SourceFile) :
    List UnusedFunction :=
  (f.unusedEntities u [kind]).map fun e => ⟨f.path, e.name, e.startLine, e.exported, e.complexity⟩

def unusedFunctions (u : UsageIndex) (f : SourceFile) : List UnusedFunction :=
  f.unusedFunctionsOf u .function

def unusedComponents (u : UsageIndex) (f : SourceFile) : List UnusedFunction :=
  f.unusedFunctionsOf u .component

def deadCode (u : UsageIndex) (f : SourceFile) : List DeadCode :=
  (f.unusedEntities u [.class_, .constant]).map fun e =>
    ⟨f.path, e.name, e.kind, e.startLine, e.exported⟩

end SourceFile

end ModuleAtlas
