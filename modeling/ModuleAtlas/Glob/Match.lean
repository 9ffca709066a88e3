import ModuleAtlas.Glob.Basic
import ModuleAtlas.Syntax.Source

/-!
# Matching globs

A text is matched byte by byte. After each piece the set of positions is kept that a match
of the pieces so far can end at.
-/

namespace ModuleAtlas.Glob

set_option autoImplicit false

def bytesOf (c : Char) : List UInt8 := String.utf8EncodeChar c

/-- Is the byte in a range of a class? A range of longer characters reaches from the last byte of
its first to the first byte of its last one; their other bytes stand for themselves. -/
def inRange (b : UInt8) (range : Char × Char) : Bool :=
  let first := bytesOf range.1
  let last := bytesOf range.2
  if range.1 == range.2 then first.contains b
  else first.dropLast.contains b || last.tail.contains b
    || (first.getLastD 0 ≤ b && b ≤ last.headD 0)

def standsAt (s : Source) : List UInt8 → Nat → Bool
  | [], _ => true
  | b :: rest, i => decide (i < s.size) && s.byte i == b && standsAt s rest (i + 1)

def onward (s : Source) (i : Nat) : List Nat := List.range' i (s.size + 1 - i)

def afterSlashes (s : Source) (i : Nat) : List Nat :=
  ((List.range' i (s.size - i)).filter fun j => s.byte j == 47).map (· + 1)

def isSlash (s : Source) (i : Nat) : Bool := decide (i < s.size) && s.byte i == 47

mutual

/-- Pieces that stand for nothing: groups without any branch that stands for something. -/
def isVoid : Piece → Bool
  | .choice branches => areVoid branches
  | _ => false

def allVoid : List Piece → Bool
  | [] => true
  | p :: rest => isVoid p && allVoid rest

def areVoid : List (List Piece) → Bool
  | [] => true
  | ps :: rest => allVoid ps && areVoid rest

end

mutual

def ends (s : Source) : Piece → Nat → List Nat
  | .literal c, i => if standsAt s (bytesOf c) i then [i + (bytesOf c).length] else []
  | .any, i => if i < s.size then [i + 1] else []
  | .star, i => onward s i
  | .leading, i => i :: (if isSlash s i then [i + 1] else []) ++ afterSlashes s i
  | .trailing, i => if isSlash s i then onward s (i + 1) else []
  | .between, i => if isSlash s i then (i + 1) :: afterSlashes s (i + 1) else []
  | .oneOf negated ranges, i =>
    if i < s.size && (ranges.any (inRange (s.byte i))) != negated then [i + 1] else []
  | .choice branches, i => if areVoid branches then [i] else endsAny s branches i

def endsAll (s : Source) : List Piece → List Nat → List Nat
  | [], is => is
  | p :: rest, is => endsAll s rest (is.flatMap (ends s p)).eraseDups

/-- Where a match of one of several branches can end; branches that stand for nothing do not count. -/
def endsAny (s : Source) : List (List Piece) → Nat → List Nat
  | [], _ => []
  | ps :: rest, i => (if allVoid ps then [] else endsAll s ps [i]) ++ endsAny s rest i

end

/-- Does the whole text match? A double star alone matches everything. -/
def isMatch (g : Glob) (text : String) : Bool :=
  let s := Source.ofString text
  match g.pieces with
  | [.leading] => true
  | pieces => (endsAll s pieces [0]).contains s.size

end ModuleAtlas.Glob
