import ModuleAtlas.Tree.Basic

/-!
# Following paths

Links are followed wherever they stand, at most forty on the way. A path goes on only from
a directory, so that a slash at its end asks for one.
-/

namespace ModuleAtlas

set_option autoImplicit false

namespace Tree

/-- A place in a tree: the names on the way from the top with what stands there, nearest first. -/
abbrev Place := List (Piece × Tree)

def here (top : Tree) : Place → Tree
  | [] => top
  | (_, t) :: _ => t

def names (place : Place) : List Piece := (place.map Prod.fst).reverse

def path (place : Place) : Path := ⟨true, names place⟩

def maxNameSize : Nat := 255

def maxLinks : Nat := 40

def follow (top : Tree) (links : Nat) (place : Place) (pieces : List Piece) :
    Except AccessFault Place :=
  match pieces with
  | [] => .ok place
  | piece :: rest =>
    match here top place with
    | .directory entries =>
      if Path.isVoid piece then follow top links place rest
      else if piece == ".." then follow top links place.tail rest
      else if maxNameSize < piece.bytes.length then .error .tooLongName
      else
        match entry? entries piece with
        | none => .error .missing
        | some (.link target) =>
          match links with
          | 0 => .error .tooManyLinks
          | links + 1 =>
            follow top links (if target.rooted then [] else place) (target.pieces ++ rest)
        | some t => follow top links ((piece, t) :: place) rest
    | _ => .error .notDirectory
termination_by (links, pieces.length)

/-- The names of the file that writing to a path would make or replace. -/
def writable (top : Tree) : Nat → Place → List Piece → Except AccessFault (List Piece)
  | links, place, pieces => do
    let solid := (pieces.reverse.dropWhile fun piece => piece == ("" : Piece)).reverse
    match solid.getLast? with
    | none => .error .isDirectory
    | some last =>
      let above ← follow top links place solid.dropLast
      match here top above with
      | .directory entries =>
        if last == "." || last == ".." || solid.length < pieces.length then .error .isDirectory
        else if maxNameSize < last.bytes.length then .error .tooLongName
        else
          match entry? entries last with
          | some (.directory _) => .error .isDirectory
          | some (.link target) =>
            match links with
            | 0 => .error .tooManyLinks
            | links + 1 => writable top links (if target.rooted then [] else above) target.pieces
          | _ => .ok (names above ++ [last])
      | _ => .error .notDirectory

end Tree

structure Workspace where
  top : Tree
  current : Path
  /-- Why a directory cannot be listed or a file cannot be read, if that is so. -/
  barred : Path → Option AccessFault := fun _ => none
  /-- The files whose parse takes longer than allowed. -/
  late : Path → Bool := fun _ => false

namespace Workspace

def find (w : Workspace) (p : Path) : Except AccessFault Tree.Place :=
  if !p.rooted && p.pieces.isEmpty then .error .missing
  else Tree.follow w.top Tree.maxLinks [] (w.current.join p).pieces

def canonical (w : Workspace) (p : Path) : Except AccessFault Path :=
  (w.find p).map Tree.path

def isDirectory (w : Workspace) (p : Path) : Bool :=
  match w.find p with
  | .ok place => (Tree.here w.top place).isDirectory
  | .error _ => false

/-- What a file holds, whether or not it may be read. -/
def stored (w : Workspace) (p : Path) : Except AccessFault ByteArray := do
  match Tree.here w.top (← w.find p) with
  | .file content => .ok content
  | _ => .error .isDirectory

def read (w : Workspace) (p : Path) : Except AccessFault ByteArray := do
  let content ← w.stored p
  match w.barred (← w.canonical p) with
  | some fault => .error fault
  | none => .ok content

def readText (w : Workspace) (p : Path) : Except AccessFault String := do
  match String.fromUTF8? (← w.read p) with
  | some text => .ok text
  | none => .error .notText

def write (w : Workspace) (p : Path) (text : String) : Except AccessFault Workspace := do
  if !p.rooted && p.pieces.isEmpty then .error .missing
  else
    let names ← Tree.writable w.top Tree.maxLinks [] (w.current.join p).pieces
    .ok { w with top := Tree.insert (.file text.toUTF8) names w.top }

end Workspace

end ModuleAtlas
