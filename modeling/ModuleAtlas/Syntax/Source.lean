/-!
# Source text

A source is read as UTF-8 bytes; positions are byte offsets. Reading past the end
gives the byte zero.
-/

namespace ModuleAtlas

set_option autoImplicit false

structure Source where
  bytes : ByteArray

namespace Source

def ofString (text : String) : Source := ⟨text.toUTF8⟩

def size (s : Source) : Nat := s.bytes.size

@[inline]
def byte (s : Source) (i : Nat) : UInt8 :=
  if h : i < s.bytes.size then s.bytes[i] else 0

def slice (s : Source) (start stop : Nat) : String :=
  (String.fromUTF8? (s.bytes.extract start stop)).getD ""

def charAt (s : Source) (i : Nat) : Nat × Nat :=
  let b := s.byte i
  let tail (k : Nat) : Nat := (s.byte (i + k)).toNat % 64
  if b < 0x80 then (b.toNat, 1)
  else if b < 0xE0 then ((b.toNat % 32) * 64 + tail 1, 2)
  else if b < 0xF0 then ((b.toNat % 16) * 4096 + tail 1 * 64 + tail 2, 3)
  else ((b.toNat % 8) * 262144 + tail 1 * 4096 + tail 2 * 64 + tail 3, 4)

def startsWith (s : Source) (i : Nat) (text : String) : Bool :=
  go text.toList i
where
  go : List Char → Nat → Bool
    | [], _ => true
    | c :: rest, i => (s.byte i).toNat == c.toNat && go rest (i + 1)

def lineFeeds (s : Source) : Array Nat :=
  go s.size 0 #[]
where
  go : Nat → Nat → Array Nat → Array Nat
    | 0, _, acc => acc
    | n + 1, i, acc => go n (i + 1) (if s.byte i == 10 then acc.push i else acc)

end Source

structure LineTable where
  feeds : Array Nat

namespace LineTable

def ofSource (s : Source) : LineTable := ⟨s.lineFeeds⟩

/-- How many of the feeds in `[lo, hi)` of the table stand before a position, added to `lo`. -/
def feedsBefore (t : LineTable) (position : Nat) : Nat → Nat → Nat → Nat
  | 0, lo, _ => lo
  | fuel + 1, lo, hi =>
    if lo < hi then
      let mid := (lo + hi) / 2
      if t.feeds.getD mid 0 < position then feedsBefore t position fuel (mid + 1) hi
      else feedsBefore t position fuel lo mid
    else lo

def lineAt (t : LineTable) (position : Nat) : Nat :=
  t.feedsBefore position (t.feeds.size + 1) 0 t.feeds.size + 1

end LineTable

end ModuleAtlas
