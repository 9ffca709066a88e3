import ModuleAtlas.Document.Reader.Basic

/-!
# Reading numbers

Only natural numbers below 2 ^ 64 are asked for. Of the other numbers, those beyond the
greatest double are told apart.
-/

namespace ModuleAtlas.Document.Reader

set_option autoImplicit false

def isDigit (c : Char) : Bool := '0' ≤ c && c ≤ '9'

def digits : Reader (List Char) := do
  let s ← get
  set (s.dropWhile isDigit)
  return s.takeWhile isDigit

structure Numeral where
  negative : Bool
  whole : List Char
  decimals : Option (List Char)
  exponent : Option (Bool × List Char)

/-- A number after its sign; `atEnd` is how a number fails whose digits are missing at the end of
the text. -/
def numeral (negative : Bool) (atEnd : Misread) : Reader Numeral := do
  let missing {β : Type} : Reader β := do
    match ← peek? with
    | none => throw atEnd
    | some _ => throw .malformed
  let whole ← digits
  match whole with
  | [] => missing
  | '0' :: _ :: _ => throw .malformed
  | _ =>
    let decimals ← do
      if (← peek?) == some '.' then
        drop
        match ← digits with
        | [] => missing
        | ds => pure (some ds)
      else pure none
    let exponent ← do
      let mark ← peek?
      if mark == some 'e' || mark == some 'E' then
        drop
        let sign ← peek?
        if sign == some '+' || sign == some '-' then drop
        match ← digits with
        | [] => missing
        | ds => pure (some (sign == some '-', ds))
      else pure none
    return ⟨negative, whole, decimals, exponent⟩

def digitValue (c : Char) : Nat := c.toNat - 48

def valueOf (ds : List Char) : Nat := ds.foldl (fun n c => n * 10 + digitValue c) 0

def wordLimit : Nat := Nat.pow 2 64 - 1

def significand : Nat → List Char → Nat × Nat
  | n, [] => (n, 0)
  | n, c :: rest =>
    let m := n * 10 + digitValue c
    if m ≤ wordLimit then significand m rest else (n, rest.length + 1)

/-- The nearest number of 53 binary digits, of two the even one. -/
def round53 (n : Nat) : Nat :=
  if n < Nat.pow 2 53 then n
  else
    let unit := Nat.pow 2 (n.log2 - 52)
    let q := n / unit
    let r := n % unit
    if unit < 2 * r || (2 * r == unit && q % 2 == 1) then (q + 1) * unit else q * unit

def Numeral.overflows (x : Numeral) : Bool :=
  let (n, extra) := significand 0 x.whole
  let (n, used) := match x.decimals with
    | none => (n, 0)
    | some ds =>
      let (m, left) := significand n ds
      (m, ds.length - left)
  if n == 0 then false
  else
    let start : Int := (extra : Int) - used
    let exponent : Int := match x.exponent with
      | none => start
      | some (true, ds) => start - valueOf ds
      | some (false, ds) => start + valueOf ds
    if 308 < exponent then true
    else if exponent < 0 then false
    else decide (Nat.pow 2 1024 - Nat.pow 2 970 ≤ round53 n * round53 (Nat.pow 10 exponent.toNat))

def Numeral.natural? (x : Numeral) : Option Nat :=
  if x.negative || x.decimals.isSome || x.exponent.isSome then none
  else
    let n := valueOf x.whole
    if n ≤ wordLimit then some n else none

/-- Take a number; one that is no natural number is mistyped, unless it is too large for a double. -/
def number (negative : Bool) : Reader Nat := do
  let x ← numeral negative .ended
  match x.natural? with
  | some n => return n
  | none => throw (if x.overflows then .malformed else .mistyped)

end ModuleAtlas.Document.Reader
