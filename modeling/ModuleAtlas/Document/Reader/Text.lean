import ModuleAtlas.Document.Reader.Basic

/-!
# Reading strings

Escapes by code unit stand for characters; characters beyond the first plane are written as
a pair of surrogates.
-/

namespace ModuleAtlas.Document.Reader

set_option autoImplicit false

def hexValue? (c : Char) : Option Nat :=
  if '0' ≤ c && c ≤ '9' then some (c.toNat - 48)
  else if 'a' ≤ c && c ≤ 'f' then some (c.toNat - 87)
  else if 'A' ≤ c && c ≤ 'F' then some (c.toNat - 55)
  else none

/-- Four hexadecimal digits. Four bytes that are no such digits are malformed. -/
def hex : Reader Nat := do
  match ← get with
  | a :: b :: c :: d :: rest =>
    match hexValue? a, hexValue? b, hexValue? c, hexValue? d with
    | some a, some b, some c, some d =>
      set rest
      return ((a * 16 + b) * 16 + c) * 16 + d
    | _, _, _, _ => throw .malformed
  | rest => throw (if rest.foldl (fun n c => n + c.utf8Size) 0 < 4 then .ended else .malformed)

def isLeading (n : Nat) : Bool := decide (0xD800 ≤ n) && decide (n ≤ 0xDBFF)

def isTrailing (n : Nat) : Bool := decide (0xDC00 ≤ n) && decide (n ≤ 0xDFFF)

/-- The character of an escape by code unit; surrogates have to come in pairs. -/
def unit : Reader Char := do
  let n ← hex
  if isTrailing n then throw .malformed
  else if isLeading n then
    if (← next) != '\\' then throw .malformed
    if (← next) != 'u' then throw .malformed
    let m ← hex
    if isTrailing m then return Char.ofNat ((n - 0xD800) * 1024 + (m - 0xDC00) + 0x10000)
    else throw .malformed
  else return Char.ofNat n

def plainEscape? (c : Char) : Option Char :=
  if c == '"' || c == '\\' || c == '/' then some c
  else if c == 'b' then some '\x08'
  else if c == 'f' then some '\x0c'
  else if c == 'n' then some '\n'
  else if c == 'r' then some '\r'
  else if c == 't' then some '\t'
  else none

/-- The rest of a string after its opening quote, its characters in reverse. `escapedUnit` reads an
escape by code unit. -/
def stringFrom (escapedUnit : Reader Char) : Nat → List Char → Reader (List Char)
  | 0, _ => throw .ended
  | fuel + 1, seen => do
    let c ← next
    if c == '"' then return seen
    else if c == '\\' then
      let e ← next
      match plainEscape? e with
      | some d => stringFrom escapedUnit fuel (d :: seen)
      | none =>
        if e == 'u' then
          let d ← escapedUnit
          stringFrom escapedUnit fuel (d :: seen)
        else throw .malformed
    else if c.toNat < 32 then throw .malformed
    else stringFrom escapedUnit fuel (c :: seen)

def stringBody : Reader String := do
  let seen ← stringFrom unit ((← get).length + 1) []
  return String.ofList seen.reverse

def skipString : Reader Unit := do
  let _ ← stringFrom (do let _ ← hex; return ' ') ((← get).length + 1) []

end ModuleAtlas.Document.Reader
