/-!
# Globs

A glob is a list of pieces. Single and double stars cross slashes alike; a double star that
stands between slashes, or at an end with a slash on the other side, also stands for no
directory at all.
-/

namespace ModuleAtlas

set_option autoImplicit false

namespace Glob

inductive Piece where
  | literal (c : Char)
  | any
  | star
  /-- Any leading directories, or none. -/
  | leading
  /-- Anything below. -/
  | trailing
  /-- A slash, or directories between slashes. -/
  | between
  | oneOf (negated : Bool) (ranges : List (Char × Char))
  | choice (branches : List (List Piece))
  deriving Repr, Inhabited

inductive Defect where
  | unclosedClass
  | badRange (first last : Char)
  | unclosedGroup
  | unopenedGroup
  | danglingEscape
  deriving DecidableEq, Repr, Inhabited

namespace Defect

def reason : Defect → String
  | unclosedClass => "unclosed character class; missing ']'"
  | badRange first last =>
    "invalid range; '" ++ String.singleton first ++ "' > '" ++ String.singleton last ++ "'"
  | unclosedGroup =>
    "unclosed alternate group; missing '\x7d' (maybe escape '\x7b' with '[\x7b]'?)"
  | unopenedGroup =>
    "unopened alternate group; missing '\x7b' (maybe escape '\x7d' with '[\x7d]'?)"
  | danglingEscape => "dangling '\\'"

def message (d : Defect) (text : String) : String :=
  "error parsing glob '" ++ text ++ "': " ++ d.reason

end Defect

end Glob

structure Glob where
  pieces : List Glob.Piece
  deriving Repr, Inhabited

end ModuleAtlas
