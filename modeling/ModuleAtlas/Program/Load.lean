import ModuleAtlas.Program.Basic
import ModuleAtlas.Program.Discovery

/-!
# Loading programs

Settings are checked before any file is read; a file that cannot be read becomes a
diagnostic.
-/

namespace ModuleAtlas.Workspace

set_option autoImplicit false

def validate (w : Workspace) (s : Settings) : Except Fault Unit := do
  if !w.isDirectory s.root then .error (.badRoot s.root)
  s.checkBounds
  let _ ← s.selection
  return ()

/-- Read and parse a source of a limited size; the size is looked at before the file is read. -/
def readSource (w : Workspace) (limit timeout : Nat) (p : Path) : Except Fault SourceFile :=
  match w.stored p with
  | .error fault => .error (.unreadable fault.reason)
  | .ok content =>
    if limit < content.size then .error (.tooLarge p.text content.size limit)
    else match w.read p with
      | .error fault => .error (.unreadable fault.reason)
      | .ok content =>
        if content.validateUTF8 then SourceFile.parse p ⟨content⟩ ⟨timeout, w.late⟩
        else .error (.unreadable AccessFault.notText.reason)

def load (w : Workspace) (s : Settings) : Except Fault Program := do
  w.validate s
  let root ← w.root s
  let paths ← w.discover s
  return Program.assemble root s.aliases (paths.map fun p => (p, w.readSource s.maxFileSize s.parseTimeout p))

end ModuleAtlas.Workspace
