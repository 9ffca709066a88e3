import ModuleAtlas.Language
import ModuleAtlas.Syntax.Lexeme

/-!
# Inserted semicolons

A statement may end without a semicolon before a closing brace, at the end of the text, or
at a line break after which the next character cannot carry the statement on. Comments that
come first decide where the statement ends.
-/

namespace ModuleAtlas.Semicolon

set_option autoImplicit false

open Lexeme

/-- What may stand after the point where a semicolon is missing: an operator of an expression
(`operand`), or the body of a function whose head came before (`signature`). -/
structure Place where
  operand : Bool
  signature : Bool := false
  deriving DecidableEq, Repr

inductive Gap where
  | refused
  | sameLine (next : Nat)
  | passed (next : Nat)

def blockBody (s : Source) : Nat → Nat → Bool → Nat × Bool × Bool
  | 0, i, broken => (i, broken, false)
  | n + 1, i, broken =>
    if s.size ≤ i then (i, broken, false)
    else if s.byte i == 42 && s.byte (i + 1) == 47 then (i + 2, broken, true)
    else blockBody s n (i + 1) (broken || s.byte i == 10 || isWideSeparator s i)

def skipSpaces (s : Source) (i : Nat) : Nat :=
  advanceIn s i fun j => if isSpace (s.byte j) then some (j + 1) else none

def feedEnd (s : Source) (i : Nat) : Nat :=
  advanceIn s i fun j =>
    if j < s.size && s.byte j != 10 && !isWideSeparator s j then some (j + 1) else none

/-- Blanks and comments from a position on. Unless `through`, it stops after the first block comment. -/
def gap (s : Source) (through : Bool) : Nat → Nat → Bool → Gap
  | 0, i, _ => .passed i
  | fuel + 1, i, broken =>
    let j := skipSpaces s i
    if s.byte j == 47 then
      if s.byte (j + 1) == 47 then gap s through fuel (feedEnd s (j + 2)) broken
      else if s.byte (j + 1) == 42 then
        let (k, broken, closed) := blockBody s (s.size + 1 - j) (j + 2) broken
        if closed && !through && s.byte k != 47 then
          if broken then .passed k else .sameLine k
        else gap s through fuel k broken
      else .refused
    else .passed j

def endsBefore (d : Dialect) (s : Source) (i : Nat) (place : Place) : Bool :=
  let b := s.byte i
  if b == 96 || b == 44 || b == 58 || b == 59 || b == 42 || b == 37 || b == 62 || b == 60 || b == 61
      || b == 63 || b == 94 || b == 124 || b == 38 || b == 47 then false
  else if b == 46 then !d.hasTypes && isDigit (s.byte (i + 1))
  else if b == 40 || b == 91 then d.hasTypes && !place.operand
  else if b == 123 then !place.signature
  else if b == 43 then s.byte (i + 1) == 43
  else if b == 45 then s.byte (i + 1) == 45
  else if b == 33 then s.byte (i + 1) != 61
  else if b == 105 then
    if s.byte (i + 1) != 110 then true
    else if !isLetter (s.byte (i + 2)) then false
    else if s.startsWith (i + 2) "stanceof" then isLetter (s.byte (i + 10))
    else true
  else true

/-- Is a semicolon inserted at this position, where blanks may come first? `again` tells it of
the position after a blank. -/
def insertedAt (d : Dialect) (s : Source) (place : Place) (again : Nat → Bool) (i : Nat) : Bool :=
  let b := s.byte i
  if b == 125 then
    if d.hasTypes && s.byte (skipSpaces s (i + 1)) == 58 then place.operand else true
  else if b == 10 || (!d.hasTypes && isWideSeparator s i) then
    match gap s true (s.size + 1 - i) (i + 1) false with
    | .passed j => endsBefore d s j place
    | _ => false
  else if isSpace b && i < s.size then again (i + 1)
  else false

def inserted (d : Dialect) (s : Source) (place : Place) : Nat → Nat → Bool
  | 0, _ => false
  | fuel + 1, i =>
    if s.size ≤ i then true
    else if s.byte i == 47 then
      match gap s d.hasTypes (s.size + 1 - i) i false with
      | .refused => false
      | .sameLine j => insertedAt d s place (inserted d s place fuel) j
      | .passed j =>
        if !d.hasTypes && !place.operand && s.byte j != 44 && s.byte j != 61 then true
        else insertedAt d s place (inserted d s place fuel) j
    else insertedAt d s place (inserted d s place fuel) i

def end? (d : Dialect) (s : Source) (place : Place) (i : Nat) : Option Nat :=
  go (s.size + 1 - i) i
where
  go : Nat → Nat → Option Nat
    | 0, _ => none
    | fuel + 1, i =>
      if inserted d s place (s.size + 2 - i) i then some i
      else
        match commentEnd? s (skipBlanks s i) with
        | some j => go fuel j
        | none => none

end ModuleAtlas.Semicolon
