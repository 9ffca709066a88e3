import ModuleAtlas.Document.Reader.Numeral
import ModuleAtlas.Document.Reader.Text

/-!
# Reading values

Values of a wanted kind, and values of no interest, which are passed over however deep they
are.
-/

namespace ModuleAtlas.Document.Reader

set_option autoImplicit false

variable {α : Type}

/-- A value of the wrong kind starts here: fail as it deserves. -/
def refuse : Reader α := do
  match ← peek? with
  | none => throw .ended
  | some c =>
    if c == 'n' then word "null".toList
    else if c == 't' then word "true".toList
    else if c == 'f' then word "false".toList
    else if c == '-' then do drop; let _ ← number true
    else if isDigit c then do let _ ← number false
    else if c == '"' then do drop; let _ ← stringBody
    else if c != '[' && c != '\x7b' then throw .malformed
    throw .mistyped

def natural : Reader Nat := do
  match ← peekSolid? with
  | none => throw .ended
  | some c =>
    if c == '-' then do drop; number true
    else if isDigit c then number false
    else refuse

def text : Reader String := do
  match ← peekSolid? with
  | some '"' => drop; stringBody
  | _ => refuse

def hasItem (first : Bool) : Reader Bool := do
  match ← peekSolid? with
  | none => throw .ended
  | some c =>
    if c == ']' then return false
    else if first then return true
    else if c == ',' then
      drop
      match ← peekSolid? with
      | none => throw .ended
      | some d => if d == ']' then throw .malformed else return true
    else throw .malformed

def hasField (first : Bool) : Reader Bool := do
  match ← peekSolid? with
  | none => throw .ended
  | some c =>
    if c == '\x7d' then return false
    else if first then
      if c == '"' then return true else throw .malformed
    else if c == ',' then
      drop
      match ← peekSolid? with
      | none => throw .ended
      | some d => if d == '"' then return true else throw .malformed
    else throw .malformed

def itemsFrom (item : Reader α) : Nat → Bool → Reader (List α)
  | 0, _ => throw .ended
  | fuel + 1, first => do
    if ← hasItem first then
      let x ← item
      return x :: (← itemsFrom item fuel false)
    else
      drop
      return []

def listOf (item : Reader α) : Reader (List α) := do
  match ← peekSolid? with
  | some '[' =>
    drop
    itemsFrom item ((← get).length + 1) true
  | _ => refuse

def fieldsFrom (value : Reader α) : Nat → Bool → Reader (List (String × α))
  | 0, _ => throw .ended
  | fuel + 1, first => do
    if ← hasField first then
      let name ← text
      expect ':'
      let x ← value
      return (name, x) :: (← fieldsFrom value fuel false)
    else
      drop
      return []

def recordOf (value : Reader α) : Reader (List (String × α)) := do
  match ← peekSolid? with
  | some '\x7b' =>
    drop
    fieldsFrom value ((← get).length + 1) true
  | _ => refuse

/-! ## Values of no interest -/

/-- Take a value that holds no others, or only its opening bracket, which is given back. -/
def skipFlat : Reader (Option Char) := do
  match ← peekSolid? with
  | none => throw .ended
  | some c =>
    if c == 'n' then word "null".toList; return none
    else if c == 't' then word "true".toList; return none
    else if c == 'f' then word "false".toList; return none
    else if c == '-' then drop; let _ ← numeral true .malformed; return none
    else if isDigit c then let _ ← numeral false .malformed; return none
    else if c == '"' then drop; skipString; return none
    else if c == '[' || c == '\x7b' then drop; return some c
    else throw .malformed

def closes (bracket c : Char) : Bool :=
  (bracket == '[' && c == ']') || (bracket == '\x7b' && c == '\x7d')

/-- Take closing brackets, and a comma once a value has been taken, until another value has to
follow; gives the brackets that are still open, the nearest first. -/
def closeSkipped : List Char → Bool → Reader (List Char)
  | [], _ => return []
  | bracket :: outer, taken => do
    match ← peekSolid? with
    | none => throw .ended
    | some c =>
      if c == ',' && taken then drop; return bracket :: outer
      else if closes bracket c then drop; closeSkipped outer true
      else if taken then throw .malformed
      else return bracket :: outer

def skipFrom : Nat → List Char → Reader Unit
  | 0, _ => throw .ended
  | fuel + 1, outer => do
    let remaining ← match ← skipFlat with
      | some bracket => closeSkipped (bracket :: outer) false
      | none => closeSkipped outer true
    match remaining with
    | [] => return
    | bracket :: _ =>
      if bracket == '\x7b' then
        expect '"'
        skipString
        expect ':'
      skipFrom fuel remaining

def skip : Reader Unit := do skipFrom ((← get).length + 1) []

def run (r : Reader α) (input : String) : Except Misread α := do
  let (x, rest) ← r input.toList
  if rest.all isSpace then return x else throw .malformed

end ModuleAtlas.Document.Reader
