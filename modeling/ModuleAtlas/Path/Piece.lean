/-!
# Pieces of paths

Things are named by bytes. Mostly the bytes are those of a text. Where they are not, a name is
shown with a replacement character for each broken sequence, that is, for the longest stretch of
bytes that could begin a character.
-/

namespace ModuleAtlas

set_option autoImplicit false

structure Piece where
  bytes : List UInt8
  deriving DecidableEq, Repr, Inhabited

namespace Piece

def ofString (text : String) : Piece := ⟨text.toUTF8.data.toList⟩

instance : Coe String Piece := ⟨ofString⟩

instance : Append Piece := ⟨fun a b => ⟨a.bytes ++ b.bytes⟩⟩

instance : Ord Piece := ⟨fun a b => compare a.bytes b.bytes⟩

def isContinuation (b : UInt8) : Bool := 0x80 ≤ b && b ≤ 0xBF

def beginsLonger (b c : UInt8) : Bool :=
  if b == 0xE0 then 0xA0 ≤ c && c ≤ 0xBF
  else if b == 0xED then 0x80 ≤ c && c ≤ 0x9F
  else if b == 0xF0 then 0x90 ≤ c && c ≤ 0xBF
  else if b == 0xF4 then 0x80 ≤ c && c ≤ 0x8F
  else 0xE1 ≤ b && b ≤ 0xF3 && isContinuation c

/-- How many bytes the broken sequence in front has. -/
def brokenSize : List UInt8 → Nat
  | b :: c :: rest =>
    if beginsLonger b c then
      if 0xF0 ≤ b && rest.head?.any isContinuation then 3 else 2
    else 1
  | _ => 1

def firstChar? (bytes : List UInt8) : Option Char := (bytes.take 4).toByteArray.utf8DecodeChar? 0

def replacement : Char := Char.ofNat 0xFFFD

/-- The characters of bytes; the first `skip` bytes belong to a character that has been shown. -/
def chars (skip : Nat) : List UInt8 → List Char
  | [] => []
  | b :: rest =>
    match skip with
    | skip + 1 => chars skip rest
    | 0 =>
      match firstChar? (b :: rest) with
      | some c => c :: chars (c.utf8Size - 1) rest
      | none => replacement :: chars (brokenSize (b :: rest) - 1) rest

def text (p : Piece) : String := String.ofList (chars 0 p.bytes)

def text? (p : Piece) : Option String := if ofString p.text = p then some p.text else none

/-- A file name cut at its last dot; a dot in front is part of the stem. -/
def split (name : Piece) : Piece × Option Piece :=
  let ending := name.bytes.reverse.takeWhile (· != 46)
  let stem := (name.bytes.reverse.drop (ending.length + 1)).reverse
  if stem.isEmpty then (name, none) else (⟨stem⟩, some ⟨ending.reverse⟩)

end Piece

end ModuleAtlas
