import ModuleAtlas.Path.Piece
import ModuleAtlas.Text.Cut

/-!
# Paths

A path is kept as it was written: whether it starts at the root, and the pieces between
its slashes. What it means are its parts: empty pieces and inner dots do not count. Paths
are compared by their parts and printed by their pieces.

`normalize` resolves dots and double dots on the pieces alone. A double dot takes away the
step before it, whatever that step is; where there is none it stays.
-/

namespace ModuleAtlas

set_option autoImplicit false

inductive Part where
  | root
  | here
  | up
  | name (piece : Piece)
  deriving DecidableEq, Repr, Inhabited

namespace Part

def piece : Part → Piece
  | root => "/"
  | here => "."
  | up => ".."
  | name s => s

def text (part : Part) : String := part.piece.text

def ofPiece? (piece : Piece) : Option Part :=
  if piece == "" || piece == "." then none
  else if piece == ".." then some up
  else some (name piece)

def rank : Part → Nat
  | root => 0
  | here => 1
  | up => 2
  | name _ => 3

/-- Root, dot, double dot, then names in the order of their bytes. -/
def cmp : Part → Part → Ordering
  | name s, name t => compare s t
  | a, b => compare a.rank b.rank

end Part

structure Path where
  rooted : Bool
  pieces : List Piece
  deriving DecidableEq, Repr, Inhabited

namespace Path

def piecesOf (text : List Char) : List Piece :=
  if text.isEmpty then [] else (Text.split (· == '/') text).map fun chars => .ofString (.ofList chars)

def ofString (text : String) : Path :=
  match text.toList with
  | '/' :: rest => ⟨true, piecesOf rest⟩
  | chars => ⟨false, piecesOf chars⟩

def text (p : Path) : String :=
  (if p.rooted then "/" else "") ++ "/".intercalate (p.pieces.map Piece.text)

def isText (p : Path) : Bool := p.pieces.all (·.text?.isSome)

/-- What the path means: its steps, without empty pieces and inner dots. -/
def parts (p : Path) : List Part :=
  (if p.rooted then [.root] else if p.pieces.head? == some (.ofString ".") then [.here] else [])
    ++ p.pieces.filterMap Part.ofPiece?

def cmpParts : List Part → List Part → Ordering
  | [], [] => .eq
  | [], _ :: _ => .lt
  | _ :: _, [] => .gt
  | a :: as, b :: bs => (Part.cmp a b).then (cmpParts as bs)

def cmp (p q : Path) : Ordering := cmpParts p.parts q.parts

def same (p q : Path) : Bool := p.parts == q.parts

def le (p q : Path) : Bool := cmp p q != .gt

def isVoid (piece : Piece) : Bool := piece == "" || piece == "."

def trimPieces (pieces : List Piece) : List Piece :=
  (pieces.reverse.dropWhile isVoid).reverse

/-- The path without void pieces at its end; a dot that begins a relative path stays. -/
def trimmed (p : Path) : Path :=
  if !p.rooted && p.pieces.head? == some (.ofString ".") then ⟨false, "." :: trimPieces p.pieces.tail⟩
  else ⟨p.rooted, trimPieces p.pieces⟩

/-- The path of the containing directory; the root and the empty path have none. -/
def parent? (p : Path) : Option Path :=
  match p.trimmed.pieces with
  | [] => none
  | pieces => some (trimmed ⟨p.rooted, pieces.dropLast⟩)

/-- Continue a path; a path from the root replaces it. -/
def join (p q : Path) : Path :=
  if q.rooted then q
  else if p.pieces.isEmpty then ⟨p.rooted, q.pieces⟩
  else
    let tail : List Piece := if q.pieces.isEmpty then [""] else q.pieces
    if p.pieces.getLast? == some (.ofString "") then ⟨p.rooted, p.pieces.dropLast ++ tail⟩
    else ⟨p.rooted, p.pieces ++ tail⟩

def fileName? (p : Path) : Option Piece :=
  match p.parts.getLast? with
  | some (.name s) => some s
  | _ => none

def extension? (p : Path) : Option Piece := p.fileName?.bind fun name => name.split.2

def extensionText? (p : Path) : Option String := p.extension?.bind Piece.text?

/-- The path with another extension; unchanged when it ends in no name. -/
def withExtension (p : Path) (ext : String) : Path :=
  match p.fileName? with
  | none => p
  | some name => ⟨p.rooted, p.trimmed.pieces.dropLast ++ [name.split.1 ++ "." ++ ext]⟩

def setOf (paths : List Path) : List Path :=
  (paths.mergeSort le).foldr (fun p rest =>
    match rest with
    | q :: others => if p.same q then p :: others else p :: rest
    | [] => [p]) []

def insertInto (p : Path) : List Path → List Path
  | [] => [p]
  | q :: rest =>
    match cmp p q with
    | .lt => p :: q :: rest
    | .eq => q :: rest
    | .gt => q :: p.insertInto rest

def stripParts? : List Part → List Part → Option (List Part)
  | [], rest => some rest
  | _ :: _, [] => none
  | a :: as, b :: bs => if a == b then stripParts? as bs else none

/-- The path as shown to a reader: below `root` relative to it, elsewhere in full. -/
def display (root p : Path) : String :=
  "/".intercalate (((stripParts? root.parts p.parts).getD p.parts).map Part.text)

def resolveStep (taken : List Piece) : Part → List Piece
  | .root => taken
  | .here => taken
  | .up =>
    match taken with
    | [] => [".."]
    | _ :: rest => rest
  | .name s => s :: taken

def normalize (p : Path) : Path :=
  ⟨p.rooted, (p.parts.foldl resolveStep []).reverse⟩

end Path

end ModuleAtlas
