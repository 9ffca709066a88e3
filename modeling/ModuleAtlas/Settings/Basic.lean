import ModuleAtlas.Fault
import ModuleAtlas.Glob.Match
import ModuleAtlas.Glob.Read
import ModuleAtlas.Program.Resolver
import ModuleAtlas.Text.Cut

/-!
# Settings

What a run looks at and when it reports. Patterns that are blank do not count.
-/

namespace ModuleAtlas

set_option autoImplicit false

structure Settings where
  /-- The directory to analyse. -/
  root : Path := .ofString "."
  /-- Patterns of which a file has to match one, if there are any. -/
  included : List String := []
  /-- Patterns that leave a file out. -/
  excluded : List String := []
  complexityThreshold : Nat := 10
  mixedThreshold : Nat := 3
  relatedMinimum : Nat := 2
  /-- Milliseconds. -/
  parseTimeout : Nat := 5000
  maxFileSize : Nat := 2097152
  /-- In the order of their beginnings, one for each. -/
  aliases : List Alias := []
  deriving DecidableEq, Repr, Inhabited

structure Selection where
  included : List Glob
  excluded : List Glob
  deriving Repr, Inhabited

namespace Selection

def picks (s : Selection) (relative : String) : Bool :=
  (s.included.isEmpty || s.included.any (·.isMatch relative))
    && !s.excluded.any (·.isMatch relative)

end Selection

namespace Settings

/-- Put an alias in its place; one with the same beginning gives way. -/
def insertAlias (a : Alias) : List Alias → List Alias
  | [] => [a]
  | b :: rest =>
    if a.start < b.start then a :: b :: rest
    else if a.start = b.start then a :: rest
    else b :: insertAlias a rest

def withAlias (s : Settings) (a : Alias) : Settings :=
  { s with aliases := insertAlias a s.aliases }

def withIncluded (s : Settings) (patterns : List String) : Settings :=
  { s with included := s.included ++ patterns }

def withExcluded (s : Settings) (patterns : List String) : Settings :=
  { s with excluded := s.excluded ++ patterns }

def compile (pattern : String) : Except Fault Glob :=
  match Glob.read pattern with
  | .ok g => .ok g
  | .error d => .error (.badPattern pattern (d.message pattern))

def compileAll (patterns : List String) : Except Fault (List Glob) :=
  (patterns.filter fun p => !Text.isBlankText p).mapM compile

/-- The compiled patterns; of two bad ones the first counts, an included one before any excluded. -/
def selection (s : Settings) : Except Fault Selection := do
  let included ← compileAll s.included
  let excluded ← compileAll s.excluded
  return ⟨included, excluded⟩

def checkBounds (s : Settings) : Except Fault Unit :=
  if s.mixedThreshold < 2 then
    .error (.setting s!"mixedLogicThreshold must be at least 2, got {s.mixedThreshold}")
  else if s.relatedMinimum = 0 then .error (.setting "relatedMinShared must be at least 1")
  else .ok ()

end Settings

end ModuleAtlas
