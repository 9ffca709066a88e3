import ModuleAtlas.Syntax.Source

/-!
# Lexemes

Where the pieces of program text end: blanks, comments, words, numbers, strings, regular
expressions and markup text. Each function takes the position where the piece would start.
-/

namespace ModuleAtlas.Lexeme

set_option autoImplicit false

def isSpace (b : UInt8) : Bool := b == 32 || (9 ≤ b && b ≤ 13)

def isDigit (b : UInt8) : Bool := 48 ≤ b && b ≤ 57

def isOctal (b : UInt8) : Bool := 48 ≤ b && b ≤ 55

def isHex (b : UInt8) : Bool :=
  isDigit b || (65 ≤ b && b ≤ 70) || (97 ≤ b && b ≤ 102)

def isLetter (b : UInt8) : Bool := (65 ≤ b && b ≤ 90) || (97 ≤ b && b ≤ 122)

def isWideBlank (c : Nat) : Bool :=
  c == 0x85 || c == 0xA0 || c == 0x1680 || (0x2000 ≤ c && c ≤ 0x200B) || c == 0x2028 || c == 0x2029
    || c == 0x202F || c == 0x205F || c == 0x2060 || c == 0x3000 || c == 0xFEFF

def blankWidth (s : Source) (i : Nat) : Nat :=
  let b := s.byte i
  if isSpace b then 1
  else if b < 0x80 then 0
  else
    let (c, w) := s.charAt i
    if isWideBlank c then w else 0

/-- Repeat a step that gives the next position, while there is one, at most `fuel` times. -/
@[specialize]
def advance (step : Nat → Option Nat) : Nat → Nat → Nat
  | 0, i => i
  | fuel + 1, i =>
    match step i with
    | some j => advance step fuel j
    | none => i

@[inline]
def advanceIn (s : Source) (i : Nat) (step : Nat → Option Nat) : Nat :=
  advance step (s.size + 1 - i) i

def skipBlanks (s : Source) (i : Nat) : Nat :=
  advanceIn s i fun j =>
    if j < s.size then
      let w := blankWidth s j
      if w == 0 then none else some (j + w)
    else none

def isWideSeparator (s : Source) (i : Nat) : Bool :=
  s.byte i == 0xE2 && s.byte (i + 1) == 0x80 && (s.byte (i + 2) == 0xA8 || s.byte (i + 2) == 0xA9)

def lineEnd (s : Source) (i : Nat) : Nat :=
  advanceIn s i fun j =>
    if j < s.size && s.byte j != 10 && s.byte j != 13 && !isWideSeparator s j then some (j + 1) else none

def blockEnd? (s : Source) (i : Nat) : Option Nat :=
  let j := advanceIn s i fun j =>
    if j < s.size && !(s.byte j == 42 && s.byte (j + 1) == 47) then some (j + 1) else none
  if j + 1 < s.size then some (j + 2) else none

def commentEnd? (s : Source) (i : Nat) : Option Nat :=
  if s.byte i == 47 then
    if s.byte (i + 1) == 47 then some (lineEnd s (i + 2))
    else if s.byte (i + 1) == 42 then blockEnd? s (i + 2)
    else none
  else none

/-- The end of the markup comment that starts here; such a comment runs to the end of its line. -/
def markupCommentEnd? (s : Source) (i : Nat) : Option Nat :=
  if s.startsWith i "<!--" || s.startsWith i "-->" then
    some (advanceIn s i fun j =>
      if j < s.size && s.byte j != 10 && !isWideSeparator s j then some (j + 1) else none)
  else none

def skipTrivia (s : Source) (i : Nat) : Nat :=
  advanceIn s i fun j =>
    if j < s.size then
      let w := blankWidth s j
      if w == 0 then commentEnd? s j else some (j + w)
    else none

def skipWideTrivia (s : Source) (i : Nat) : Nat :=
  advanceIn s i fun j =>
    if j < s.size then
      let w := blankWidth s j
      if w == 0 then (commentEnd? s j).or (markupCommentEnd? s j) else some (j + w)
    else none

def isDelimiter (b : UInt8) : Bool :=
  b ≤ 35 || (37 ≤ b && b ≤ 47) || (58 ≤ b && b ≤ 64) || (91 ≤ b && b ≤ 94) || b == 96
    || (123 ≤ b && b ≤ 126)

def hexEnd (s : Source) (i : Nat) : Nat :=
  advanceIn s i fun j => if isHex (s.byte j) then some (j + 1) else none

/-- The end of an escape with four hexadecimal digits, or with any number of them in braces. -/
def unicodeEscapeEnd? (s : Source) (i : Nat) : Option Nat :=
  if s.byte i == 92 && s.byte (i + 1) == 117 then
    if s.byte (i + 2) == 123 then
      let j := hexEnd s (i + 3)
      if i + 3 < j && s.byte j == 125 then some (j + 1) else none
    else if isHex (s.byte (i + 2)) && isHex (s.byte (i + 3)) && isHex (s.byte (i + 4))
        && isHex (s.byte (i + 5)) then some (i + 6)
    else none
  else none

def wordStep (s : Source) (i : Nat) : Option Nat :=
  let b := s.byte i
  if b < 0x80 then
    if b == 92 then unicodeEscapeEnd? s i
    else if isDelimiter b then none
    else some (i + 1)
  else
    let (c, w) := s.charAt i
    if isWideBlank c then none else some (i + w)

/-- The end of the word that starts here; the start itself if there is none. -/
def wordEnd (s : Source) (i : Nat) : Nat :=
  if isDigit (s.byte i) then i else advanceIn s i (wordStep s)

/-- The end of digits that single underscores may divide. -/
def digitsEnd (digit : UInt8 → Bool) (s : Source) (i : Nat) : Nat :=
  if digit (s.byte i) then
    advanceIn s (i + 1) fun j =>
      if digit (s.byte j) then some (j + 1)
      else if s.byte j == 95 && digit (s.byte (j + 1)) then some (j + 2)
      else none
  else i

def exponentEnd (s : Source) (i : Nat) : Nat :=
  if s.byte i == 101 || s.byte i == 69 then
    let j := if s.byte (i + 1) == 43 || s.byte (i + 1) == 45 then i + 2 else i + 1
    let k := digitsEnd isDigit s j
    if k == j then i else k
  else i

def basedEnd? (s : Source) (i : Nat) : Option Nat :=
  if s.byte i == 48 then
    let mark := s.byte (i + 1)
    let digit : Option (UInt8 → Bool) :=
      if mark == 120 || mark == 88 then some isHex
      else if mark == 98 || mark == 66 then some (fun b => b == 48 || b == 49)
      else if mark == 111 || mark == 79 then some isOctal
      else none
    match digit with
    | some p =>
      let j := digitsEnd p s (i + 2)
      if j == i + 2 then none else some (if s.byte j == 110 then j + 1 else j)
    | none => none
  else none

def numberEnd? (s : Source) (i : Nat) : Option Nat :=
  match basedEnd? s i with
  | some j => some j
  | none =>
    if isDigit (s.byte i) then
      let j := digitsEnd isDigit s i
      if s.byte j == 110 then some (j + 1)
      else if s.byte j == 46 then some (exponentEnd s (digitsEnd isDigit s (j + 1)))
      else some (exponentEnd s j)
    else if s.byte i == 46 && isDigit (s.byte (i + 1)) then
      some (exponentEnd s (digitsEnd isDigit s (i + 1)))
    else none

def escapeEnd? (s : Source) (i : Nat) : Option Nat :=
  let b := s.byte (i + 1)
  if s.size ≤ i + 1 then none
  else if b == 117 then unicodeEscapeEnd? s i
  else if b == 120 then
    if isHex (s.byte (i + 2)) && isHex (s.byte (i + 3)) then some (i + 4) else none
  else if isOctal b then
    some (if isOctal (s.byte (i + 2)) then (if isOctal (s.byte (i + 3)) then i + 4 else i + 3) else i + 2)
  else if (b == 13 || b == 63) && s.byte (i + 2) == 10 then some (i + 3)
  else if b < 0x80 then some (i + 2)
  else some (i + 1 + (s.charAt (i + 1)).2)

def stringEnd? (s : Source) (i : Nat) : Option Nat :=
  let quote := s.byte i
  if quote == 34 || quote == 39 then
    let j := advanceIn s (i + 1) fun j =>
      let b := s.byte j
      if s.size ≤ j || b == quote || b == 10 || b == 13 then none
      else if b == 92 then escapeEnd? s j
      else some (j + 1)
    if j < s.size && s.byte j == quote then some (j + 1) else none
  else none

def classEnd? (s : Source) (i : Nat) : Option Nat :=
  let j := advanceIn s (i + 1) fun j =>
    let b := s.byte j
    if s.size ≤ j || b == 93 || b == 10 then none
    else if b == 92 then (if s.byte (j + 1) == 10 || s.size ≤ j + 1 then none else some (j + 2))
    else some (j + 1)
  if j < s.size && s.byte j == 93 then some (j + 1) else none

def regexEnd? (s : Source) (i : Nat) : Option Nat :=
  if s.byte i == 47 then
    let j := advanceIn s (i + 1) fun j =>
      let b := s.byte j
      if s.size ≤ j || b == 47 || b == 10 then none
      else if b == 91 then classEnd? s j
      else if b == 92 then (if s.byte (j + 1) == 10 || s.size ≤ j + 1 then none else some (j + 2))
      else some (j + 1)
    if i + 1 < j && j < s.size && s.byte j == 47 then
      some (advanceIn s (j + 1) fun k => if 97 ≤ s.byte k && s.byte k ≤ 122 then some (k + 1) else none)
    else none
  else none

def templateTextEnd (s : Source) (i : Nat) : Nat :=
  advanceIn s i fun j =>
    let b := s.byte j
    if s.size ≤ j || b == 96 || b == 92 || (b == 36 && s.byte (j + 1) == 123) then none else some (j + 1)

def referenceEnd? (s : Source) (i : Nat) : Option Nat :=
  let upTo (ok : UInt8 → Bool) (limit j : Nat) : Option Nat :=
    let k := advance (fun m => if ok (s.byte m) then some (m + 1) else none) limit j
    if j < k && s.byte k == 59 then some (k + 1) else none
  if s.byte i == 38 then
    if s.byte (i + 1) == 35 then
      if s.byte (i + 2) == 120 || s.byte (i + 2) == 88 then upTo isHex 6 (i + 3)
      else upTo isDigit 5 (i + 2)
    else upTo isLetter 30 (i + 1)
  else none

def attributeTextEnd? (s : Source) (i : Nat) : Option Nat :=
  let quote := s.byte i
  if quote == 34 || quote == 39 then
    let j := advanceIn s (i + 1) fun j =>
      let b := s.byte j
      if s.size ≤ j || b == quote then none
      else if b == 38 then
        match referenceEnd? s j with
        | some k => some k
        | none =>
          let next := s.byte (j + 1)
          if next == 35 || isLetter next || s.size ≤ j + 1 then none else some (j + 2)
      else some (j + 1)
    if j < s.size && s.byte j == quote then some (j + 1) else none
  else none

/-- What has been seen of markup text: is the last thing a line break with blanks, is there text. -/
structure MarkupScan where
  stop : Nat
  atBreak : Bool
  sawText : Bool

/-- The end of the text between markup tags; none if there are only line breaks and indentation. -/
def markupTextEnd? (s : Source) (i : Nat) : Option Nat :=
  let r := go (s.size - i) ⟨i, false, false⟩
  if r.sawText then some r.stop else none
where
  go : Nat → MarkupScan → MarkupScan
    | 0, r => r
    | n + 1, r =>
      let b := s.byte r.stop
      if b == 0 || b == 60 || b == 62 || b == 123 || b == 125 || b == 38 then r
      else if b == 10 then go n ⟨r.stop + 1, true, r.sawText⟩
      else
        let atBreak := r.atBreak && isSpace b
        go n ⟨r.stop + 1, atBreak, r.sawText || !atBreak⟩

def markupWordEnd (s : Source) (i : Nat) : Nat :=
  let plain (b : UInt8) : Bool := isLetter b || isDigit b || b == 95 || b == 36
  if isDigit (s.byte i) then i
  else
    let j := advanceIn s i fun j => if plain (s.byte j) then some (j + 1) else none
    if i < j && s.byte j == 45 then
      advanceIn s j fun k => if plain (s.byte k) || s.byte k == 45 then some (k + 1) else none
    else wordEnd s i

end ModuleAtlas.Lexeme
