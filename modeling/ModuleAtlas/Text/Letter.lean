import ModuleAtlas.Text.LetterTable

/-!
# Letters

Case and class of characters, beyond ASCII, and lower-casing of single characters.
-/

namespace ModuleAtlas.Letter

set_option autoImplicit false

/-- Is a code point in one of the runs of a table, from the given entry on? -/
def inRuns (table : Array Nat) (c : Nat) : Nat → Nat → Bool
  | 0, _ => false
  | fuel + 1, i =>
    if i + 2 < table.size then
      let lo := table.getD i 0
      let hi := table.getD (i + 1) 0
      let step := table.getD (i + 2) 1
      if lo ≤ c && c ≤ hi then (c - lo) % step == 0 || inRuns table c fuel (i + 3)
      else inRuns table c fuel (i + 3)
    else false

def inTable (table : Array Nat) (c : Char) : Bool := inRuns table c.toNat table.size 0

def isUpper (c : Char) : Bool :=
  if c.toNat < 128 then c.isUpper else inTable LetterTable.upper c

def isLower (c : Char) : Bool :=
  if c.toNat < 128 then c.isLower else inTable LetterTable.lower c

def isAlphanumeric (c : Char) : Bool :=
  if c.toNat < 128 then c.isAlphanum else inTable LetterTable.alphanumeric c

def loweredFrom (table : Array Nat) (c : Nat) : Nat → Nat → Nat
  | 0, _ => c
  | fuel + 1, i =>
    if i + 3 < table.size then
      let lo := table.getD i 0
      let hi := table.getD (i + 1) 0
      let step := table.getD (i + 2) 1
      if lo ≤ c && c ≤ hi && (c - lo) % step == 0 then table.getD (i + 3) 0 + (c - lo)
      else loweredFrom table c fuel (i + 4)
    else c

/-- Lower case of a character; the dotted capital I keeps its dot as a mark of its own. -/
def lower (c : Char) : List Char :=
  if c.toNat < 128 then [c.toLower]
  else if c.toNat == 0x130 then ['i', Char.ofNat 0x307]
  else [Char.ofNat (loweredFrom LetterTable.lowered c.toNat LetterTable.lowered.size 0)]

end ModuleAtlas.Letter
