import ModuleAtlas.Path.Basic

/-!
# Directory trees

A tree is what stands at one place of a file system. Paths are followed name by name from
its top.
-/

namespace ModuleAtlas

set_option autoImplicit false

inductive Tree where
  | file (content : ByteArray)
  | directory (entries : List (Piece × Tree))
  /-- The target is relative to the directory that holds the link. -/
  | link (target : Path)

instance : Inhabited Tree := ⟨.directory []⟩

inductive AccessFault where
  | missing
  | denied
  | notDirectory
  | isDirectory
  | tooLongName
  | tooManyLinks
  | notText
  deriving DecidableEq, Repr, Inhabited

namespace AccessFault

def reason : AccessFault → String
  | missing => "No such file or directory (os error 2)"
  | denied => "Permission denied (os error 13)"
  | notDirectory => "Not a directory (os error 20)"
  | isDirectory => "Is a directory (os error 21)"
  | tooLongName => "File name too long (os error 36)"
  | tooManyLinks => "Too many levels of symbolic links (os error 40)"
  | notText => "stream did not contain valid UTF-8"

end AccessFault

namespace Tree

def isDirectory : Tree → Bool
  | directory _ => true
  | _ => false

def entry? (entries : List (Piece × Tree)) (name : Piece) : Option Tree :=
  (entries.find? (·.1 == name)).map Prod.snd

/-- Put an entry at the end of a chain of names, with the directories above it. An empty directory
leaves a directory that is already there. -/
def insert (entry : Tree) : List Piece → Tree → Tree
  | [], old =>
    match entry, old with
    | directory [], directory entries => directory entries
    | _, _ => entry
  | name :: rest, old =>
    let entries := match old with
      | directory entries => entries
      | _ => []
    match entry? entries name with
    | some t =>
      directory (entries.map fun e => if e.1 == name then (name, insert entry rest t) else e)
    | none => directory (entries ++ [(name, insert entry rest (directory []))])

end Tree

end ModuleAtlas
