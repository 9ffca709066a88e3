import ModuleAtlas.CommandLine.Run
import Std.Time.DateTime.Timestamp

/-!
# The program

The part of the file system that a command can see is read first; then the command runs on
it, and what it says is printed and written.
-/

namespace ModuleAtlas.Terminal

set_option autoImplicit false

/-- Reading, with the paths that were refused so far. -/
abbrev Reading := StateT (List Path) IO

def typeOf (dir name : String) : IO (Option IO.FS.FileType) := do
  let entry : IO.FS.DirEntry := ⟨dir, name⟩
  try return some (← entry.path.symlinkMetadata).type
  catch _ => return none

def pathText (names : List String) : String := "/" ++ "/".intercalate names

def pathOf (names : List String) : Path := ⟨true, names.map .ofString⟩

def orBarred {α : Type} (names : List String) (other : α) (action : IO α) : Reading α := do
  try action
  catch _ => modifyGet fun barred => (other, pathOf names :: barred)

def readFile (names : List String) : Reading Tree := do
  return .file (← orBarred names .empty (IO.FS.readBinFile (pathText names)))

partial def readSources (names : List String) : Reading Tree := do
  let listed ← orBarred names #[] do (← IO.FS.realPath (pathText names)).readDir
  let entries ← listed.toList.mapM fun e => do
    let below := names ++ [e.fileName]
    match ← typeOf (pathText names) e.fileName with
    | some .dir =>
      let ignored := Tree.ignoredNames.contains e.fileName
      return [(Piece.ofString e.fileName, ← if ignored then pure (.directory []) else readSources below)]
    | some .file =>
      let source := (Language.ofPath? (pathOf below)).isSome
      return [(Piece.ofString e.fileName, ← if source then readFile below else pure (.file .empty))]
    | _ => return []
  return .directory entries.flatten

/-- Add what stands on the way along the pieces of a path; at its end the sources below it, if
they are wanted. -/
partial def readAlong (sources : Bool) (names pieces : List String) (tree : Tree) : Reading Tree := do
  match pieces with
  | [] =>
    if sources then return Tree.insert (← readSources names) (names.map .ofString) tree else return tree
  | piece :: rest =>
    if Path.isVoid piece then readAlong sources names rest tree
    else if piece == ".." then readAlong sources names.dropLast rest tree
    else
      let below := names ++ [piece]
      let place := below.map Piece.ofString
      match ← typeOf (pathText names) piece with
      | some .dir => readAlong sources below rest (Tree.insert (.directory []) place tree)
      | some .symlink =>
        let target := Path.ofString (← IO.FS.realPath (pathText below)).toString
        if target.pieces == place then return tree
        else readAlong sources [] (target.pieces.map Piece.text ++ rest) (Tree.insert (.link target) place tree)
      | some _ => return Tree.insert (← readFile below) place tree
      | none => return tree

def look (w : Workspace) (path : Path) (sources : Bool) : IO Workspace := do
  let way := (w.current.join path).pieces.map Piece.text
  let (top, barred) ← (readAlong sources [] way w.top).run []
  return { w with top, barred := fun p => if barred.contains p then some .denied else w.barred p }

def lookAll (w : Workspace) (paths : List String) : IO Workspace :=
  paths.foldlM (fun w path => look w (.ofString path) false) w

open CommandLine

def projectOf? : Command → Option Project
  | .analyze project _ _ _ | .graph project _ | .cycles project => some project
  | .path _ _ project | .related _ _ project => some project
  | .version => none

def outputOf? : Command → Option String
  | .analyze _ delivery _ _ | .graph _ delivery => delivery.output?
  | _ => none

def filesOf : Command → List String
  | .path start goal _ => [start, goal]
  | .related file _ _ => [file]
  | command => (outputOf? command).toList

/-- The part of the file system that a command can see. -/
def survey (current : Path) (command : Command) : IO Workspace := do
  let w ← look { top := .directory [], current } (.ofString ".") false
  match projectOf? command with
  | none => return w
  | some project =>
    let w ← lookAll w project.config?.toList
    match settingsOf w project with
    | .error _ => return w
    | .ok settings => lookAll (← look w settings.root true) (filesOf command)

def save (command : Command) (before after : Workspace) : IO Unit := do
  match outputOf? command with
  | none => return
  | some file =>
    match after.readText (.ofString file) with
    | .ok text =>
      if (before.readText (.ofString file)).toOption != some text then IO.FS.writeFile file text
    | .error _ => return

def now : IO Timestamp := do
  let t := (← Std.Time.Timestamp.now).toNanosecondsSinceUnixEpoch.toInt
  return ⟨Int.fdiv t 1000000000, (Int.fmod t 1000000000).toNat⟩

def start (args : List String) : IO UInt32 := do
  let current := Path.ofString (← IO.FS.realPath (← IO.currentDir)).toString
  let command? := match CommandLine.read args with
    | .ok command? => command?
    | .error _ => none
  let w ← match command? with
    | some command => survey current command
    | none => pure { top := .directory [], current }
  let outcome := execute w (← now) args
  IO.print outcome.out
  IO.eprint outcome.err
  if let some command := command? then save command w outcome.workspace
  return UInt32.ofNat outcome.code

end ModuleAtlas.Terminal

def main (args : List String) : IO UInt32 := ModuleAtlas.Terminal.start args
