import ModuleAtlas.Path.Basic

/-!
# Faults and diagnostics

A fault stops a run or leaves a file out; a diagnostic tells of a problem with one file or
one step that did not stop the run.
-/

namespace ModuleAtlas

set_option autoImplicit false

inductive Fault where
  | setting (reason : String)
  | badRoot (root : Path)
  | badPattern (pattern reason : String)
  | unreadable (reason : String)
  | badSettings (reason : String)
  | unparsable (path : String)
  | timedOut (path : String) (milliseconds : Nat)
  | tooLarge (path : String) (size limit : Nat)
  | unsupported (path : String)
  | noGrammar
  deriving DecidableEq, Repr, Inhabited

namespace Fault

def message : Fault → String
  | setting reason => "Invalid configuration: " ++ reason
  | badRoot root => "Root directory does not exist or is not a directory: " ++ root.text
  | badPattern pattern reason => "Invalid glob pattern '" ++ pattern ++ "': " ++ reason
  | unreadable reason => "Failed to read file: " ++ reason
  | badSettings reason => "Failed to parse configuration: " ++ reason
  | unparsable path => "Failed to parse file: " ++ path
  | timedOut path ms => s!"Parsing timed out after {ms}ms: " ++ path
  | tooLarge path size limit => s!"File is too large ({size} bytes, limit {limit}): " ++ path
  | unsupported path => "Unsupported file type: " ++ path
  | noGrammar => "Tree-sitter language initialization failed"

/-- The message, and what lies behind the fault. -/
def causes (f : Fault) : List String :=
  match f with
  | badPattern _ reason | unreadable reason | badSettings reason => [f.message, reason]
  | _ => [f.message]

end Fault

inductive DiagnosticKind where
  | parseFailure | internalError | duplicateDeclaration
  deriving DecidableEq, Repr, Inhabited

namespace DiagnosticKind

def label : DiagnosticKind → String
  | parseFailure => "parseFailure"
  | internalError => "internalInvariantViolation"
  | duplicateDeclaration => "duplicateDeclaration"

def description : DiagnosticKind → String
  | parseFailure => "parse failure"
  | internalError => "internal error"
  | duplicateDeclaration => "duplicate declaration"

end DiagnosticKind

structure Diagnostic where
  file : Option Path
  kind : DiagnosticKind
  message : String
  deriving DecidableEq, Repr, Inhabited

namespace Diagnostic

def parseFailure (file : Path) (fault : Fault) : Diagnostic :=
  ⟨some file, .parseFailure, fault.message⟩

def duplicateDeclaration (file : Path) (name : String) (lines : List Nat) : Diagnostic :=
  let list := ", ".intercalate (lines.map toString)
  ⟨some file, .duplicateDeclaration,
    "'" ++ name ++ s!"' is declared {lines.length} times (lines {list}); " ++
    "usage is not attributed to any single declaration"⟩

inductive Breakdown where
  | saying (message : String)
  | silent
  deriving DecidableEq, Repr

def internalError (file : Option Path) (step : String) (b : Breakdown) : Diagnostic :=
  let reason := match b with
    | .saying message => message
    | .silent => "unknown panic"
  ⟨file, .internalError, step ++ " failed: " ++ reason⟩

def guarded {α : Type} (file : Option Path) (step : String) :
    Except Breakdown α → Except Diagnostic α
  | .ok a => .ok a
  | .error b => .error (internalError file step b)

end Diagnostic

end ModuleAtlas
