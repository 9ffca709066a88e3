import ModuleAtlas.Settings.Basic
import ModuleAtlas.Tree.Lookup

/-!
# Discovery

The files of a run are the regular files below its root that are sources by their extension
and pass the patterns. Links are not followed below the root, and directories of installed
or generated code are not entered.
-/

namespace ModuleAtlas

set_option autoImplicit false

namespace Tree

def ignoredNames : List String :=
  ["node_modules", ".git", "dist", "build", ".next", "coverage", ".turbo"]

def isIgnored (name : Piece) (t : Tree) : Bool := t.isDirectory && ignoredNames.contains name.text

mutual

/-- The regular files of a tree, by the names on the way to them; `way` leads to the tree. What is
below a directory that cannot be listed is left out. -/
def files (barred : List Piece → Bool) (way : List Piece) : Tree → List (List Piece)
  | file _ => [way]
  | link _ => []
  | directory entries => if barred way then [] else entryFiles barred way entries

def entryFiles (barred : List Piece → Bool) (way : List Piece) : List (Piece × Tree) → List (List Piece)
  | [] => []
  | (name, t) :: rest =>
    (if isIgnored name t then [] else files barred (way ++ [name]) t) ++ entryFiles barred way rest

end

end Tree

namespace Workspace

def rootPlace (w : Workspace) (s : Settings) : Except Fault Tree.Place :=
  match w.find s.root with
  | .ok place => .ok place
  | .error fault => .error (.unreadable fault.reason)

def root (w : Workspace) (s : Settings) : Except Fault Path :=
  (w.rootPlace s).map fun place => (Tree.path place).normalize

def discover (w : Workspace) (s : Settings) : Except Fault (List Path) := do
  let selection ← s.selection
  let place ← w.rootPlace s
  let pathOf (names : List Piece) : Path := ⟨true, Tree.names place ++ names⟩
  let walked := (Tree.here w.top place).files (fun names => (w.barred (pathOf names)).isSome) []
  let found := walked.filter fun names =>
    (Language.ofPath? (pathOf names)).isSome && selection.picks ("/".intercalate (names.map Piece.text))
  return Path.setOf (found.map fun names => (pathOf names).normalize)

end Workspace

end ModuleAtlas
