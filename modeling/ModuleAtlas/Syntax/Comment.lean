import ModuleAtlas.Syntax.Lexeme
import ModuleAtlas.Syntax.Node

/-!
# Comments in the tree

Rules read tokens and pass over comments. Afterwards each comment is put between the two
children it stands between, in the lowest node that has both.
-/

namespace ModuleAtlas.Comment

set_option autoImplicit false

open Lexeme

/-- The comments between two positions, the last one first, before those found so far. -/
def between (s : Source) (stop : Nat) : Nat → Nat → List Node → List Node
  | 0, _, acc => acc
  | fuel + 1, i, acc =>
    let j := skipBlanks s i
    if j < stop then
      match commentEnd? s j with
      | some k =>
        if k ≤ stop then between s stop fuel k (.leaf .comment none j (s.slice j k) :: acc) else acc
      | none =>
        match markupCommentEnd? s j with
        | some k =>
          if k ≤ stop then between s stop fuel k (.leaf .htmlComment none j (s.slice j k) :: acc) else acc
        | none => acc
    else acc

def gather (s : Source) (lo hi : Nat) (acc : List Node) : List Node :=
  if lo < hi then between s hi (hi - lo) lo acc else acc

mutual

def place (s : Source) : Node → Node
  | .leaf k r i t => .leaf k r i t
  | .branch k r i e cs => .branch k r i e (placeAll s e cs i []).reverse

def placeAll (s : Source) (stop : Nat) : List Node → Nat → List Node → List Node
  | [], i, acc => gather s i stop acc
  | c :: rest, i, acc => placeAll s stop rest c.stop (place s c :: gather s i c.start acc)

end

end ModuleAtlas.Comment
