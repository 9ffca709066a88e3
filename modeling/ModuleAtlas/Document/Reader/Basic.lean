/-!
# Readers

A text is read from the front, and what is wrong first decides how reading fails.
-/

namespace ModuleAtlas.Document

set_option autoImplicit false

inductive Misread where
  /-- The text ends too early. -/
  | ended
  /-- The text is no JSON. -/
  | malformed
  /-- The text is JSON, but not of the wanted kind. -/
  | mistyped
  deriving DecidableEq, Repr, Inhabited

def Misread.reason : Misread → String
  | ended => "the text ends too early"
  | malformed => "the text is not JSON"
  | mistyped => "a value is not of the expected kind"

/-- A reader takes characters from the front of a text. -/
abbrev Reader := StateT (List Char) (Except Misread)

namespace Reader

def isSpace (c : Char) : Bool := c == ' ' || c == '\n' || c == '\t' || c == '\r'

def peek? : Reader (Option Char) := do return (← get).head?

def next : Reader Char := do
  match ← get with
  | [] => throw .ended
  | c :: rest => set rest; return c

def drop : Reader Unit := modify List.tail

def peekSolid? : Reader (Option Char) := do
  modify (·.dropWhile isSpace)
  peek?

def expect (c : Char) : Reader Unit := do
  match ← peekSolid? with
  | none => throw .ended
  | some d => if d == c then drop else throw .malformed

def word : List Char → Reader Unit
  | [] => return
  | c :: rest => do
    if (← next) == c then word rest else throw .malformed

end Reader

end ModuleAtlas.Document
