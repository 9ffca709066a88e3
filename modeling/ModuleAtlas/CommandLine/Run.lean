import ModuleAtlas.CommandLine.Command
import ModuleAtlas.Export.Format
import ModuleAtlas.Graph.Kinship
import ModuleAtlas.Graph.Route
import ModuleAtlas.Program.Load
import ModuleAtlas.Settings.Read

/-!
# Running commands

A command reads from a workspace and answers with the text to print and the workspace as it
leaves it.
-/

namespace ModuleAtlas.CommandLine

set_option autoImplicit false

/-- A command that failed: what it was about, and the causes, each behind the one before it. -/
structure Failure where
  context : String
  causes : List String := []
  deriving DecidableEq, Repr, Inhabited

namespace Failure

def indentRest (indent text : String) : String :=
  ("\n" ++ indent).intercalate ((Text.split (· == '\n') text.toList).map String.ofList)

def numbered : Nat → List String → String
  | _, [] => ""
  | n, cause :: rest =>
    let number := toString n
    let margin := String.ofList (List.replicate (5 - number.length) ' ')
    "\n" ++ margin ++ number ++ ": " ++ indentRest "       " cause ++ numbered (n + 1) rest

def message (f : Failure) : String :=
  "Error: " ++ f.context ++ (match f.causes with
    | [] => ""
    | [cause] => "\n\nCaused by:\n    " ++ indentRest "    " cause
    | causes => "\n\nCaused by:" ++ numbered 0 causes) ++ "\n"

def ofFault (context : String) (fault : Fault) : Failure := ⟨context, fault.causes⟩

def ofAccess (context : String) (fault : AccessFault) : Failure := ⟨context, [fault.reason]⟩

end Failure

def orFail {α ε : Type} (failure : ε → Failure) : Except ε α → Except Failure α
  | .ok a => .ok a
  | .error e => .error (failure e)

def readSettings (w : Workspace) (file : String) : Except Fault Settings :=
  match w.readText (.ofString file) with
  | .error fault => .error (.unreadable fault.reason)
  | .ok text =>
    match Settings.ofText text with
    | .error m => .error (.badSettings m.reason)
    | .ok s => .ok s

/-- The settings of a project: those of its file, then what the arguments say. -/
def settingsOf (w : Workspace) (project : Project) : Except Failure Settings := do
  let base ← match project.config? with
    | none => pure {}
    | some file =>
      orFail (Failure.ofFault ("Failed to load config from " ++ file)) (readSettings w file)
  let rooted := match project.root? with
    | none => base
    | some root => { base with root := .ofString root }
  return (rooted.withIncluded project.included).withExcluded project.excluded

def openSession (w : Workspace) (s : Settings) : Except Failure Session :=
  orFail (Failure.ofFault ("Failed to analyze " ++ s.root.text))
    ((w.load s).map (Session.ofProgram ⟨s.complexityThreshold, s.mixedThreshold⟩))

def programPath (w : Workspace) (s : Session) (file : String) : Except Failure Path := do
  let p ← orFail (Failure.ofAccess ("No such file: " ++ file)) (w.canonical (.ofString file))
  if (s.program.file? p.normalize).isNone then
    .error ⟨file ++ " is not part of the analyzed program", []⟩
  else return p.normalize

def unwritten : Failure := ⟨"Failed to write output", ["path contains invalid UTF-8 characters"]⟩

/-- Write a result to its file, or give it back to be printed. The file is made before there is a
result, and stays empty without one. -/
def deliver (w : Workspace) (d : Delivery) (text? : Option String) : Workspace × Except Failure String :=
  match d.output? with
  | none => (w, match text? with
    | some text => .ok text
    | none => .error unwritten)
  | some file =>
    match w.write (.ofString file) (text?.getD "") with
    | .error fault => (w, .error (.ofAccess ("Failed to create " ++ file) fault))
    | .ok after => (after, if text?.isSome then .ok "" else .error unwritten)

def versionNumber : String := "0.1.0"

def banner : String :=
  unlines
    ["codelens - whole-program analysis for JS/TS projects",
      "Run 'codelens analyze [PATH]' to analyze a project",
      "Run 'codelens --help' for more information"]

def helpText : String :=
  unlines
    ["Whole-program static analysis for JavaScript and TypeScript projects",
      "",
      "Usage: codelens [OPTIONS] [COMMAND]",
      "",
      "Commands:",
      "  analyze  Report unused code, complexity, mixed logic and cycles",
      "  graph    Export the import graph",
      "  cycles   List import cycles",
      "  path     Shortest import chain between two files",
      "  related  Files that share direct imports with a file",
      "  version  Show version information",
      "",
      "Options:",
      "  -v, --verbose  Increase log verbosity",
      "  -h, --help     Print help",
      "  -V, --version  Print version"]

def cyclesText (s : Session) : String :=
  match s.graph.cycles with
  | [] => "No import cycles found.\n"
  | cycles => unlines (cycles.map fun c => "[" ++ c.severity.label ++ "] " ++ c.trail)

def pathText (s : Session) (start goal : Path) : String :=
  match s.graph.route start goal with
  | some chain => " -> ".intercalate (chain.map s.program.display) ++ "\n"
  | none =>
    "No import path from " ++ s.program.display start ++ " to " ++ s.program.display goal ++ "\n"

def relatedText (s : Session) (file : Path) (least : Nat) : String :=
  match s.graph.related file least with
  | [] => "No related files.\n"
  | found => unlines (found.map fun r =>
      s.program.display r.path ++ s!" ({r.shared.length} shared: "
        ++ ", ".intercalate (r.shared.map s.program.display) ++ ")")

def exportAs (w : Workspace) (now : Timestamp) (d : Delivery) (usual : Format) (settings : Except Failure Settings) :
    Workspace × Except Failure String :=
  match settings.bind (openSession w) with
  | .error failure => (w, .error failure)
  | .ok session => deliver w d ((ExportData.ofSession session now).render (d.format?.getD usual))

def run (w : Workspace) (now : Timestamp) : Command → Workspace × Except Failure String
  | .analyze project delivery complexity? mixed? =>
    exportAs w now delivery .outline ((settingsOf w project).map fun base =>
      { base with
        complexityThreshold := complexity?.getD base.complexityThreshold
        mixedThreshold := mixed?.getD base.mixedThreshold })
  | .graph project delivery => exportAs w now delivery .mermaid (settingsOf w project)
  | .cycles project => (w, do
    let session ← openSession w (← settingsOf w project)
    return cyclesText session)
  | .path start goal project => (w, do
    let session ← openSession w (← settingsOf w project)
    let start ← programPath w session start
    let goal ← programPath w session goal
    return pathText session start goal)
  | .related file minShared? project => (w, do
    let settings ← settingsOf w project
    let session ← openSession w settings
    let file ← programPath w session file
    return relatedText session file (minShared?.getD settings.relatedMinimum))
  | .version => (w, .ok ("codelens v" ++ versionNumber ++ "\n"))

structure Outcome where
  code : Nat
  out : String
  err : String
  workspace : Workspace

def execute (w : Workspace) (now : Timestamp) (args : List String) : Outcome :=
  match read args with
  | .error .misuse => ⟨2, "", "For more information, try '--help'.\n", w⟩
  | .error .showVersion => ⟨0, "codelens " ++ versionNumber ++ "\n", "", w⟩
  | .error .showHelp => ⟨0, helpText, "", w⟩
  | .ok none => ⟨0, banner, "", w⟩
  | .ok (some command) =>
    match run w now command with
    | (after, .ok out) => ⟨0, out, "", after⟩
    | (after, .error failure) => ⟨1, "", failure.message, after⟩

end ModuleAtlas.CommandLine
