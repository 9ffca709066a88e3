/-!
# Documents

Values to be written as JSON. Fields keep their order. A document is written with two blanks of
indentation for each level; what is empty stays on its line. Every function writes in front of
what follows.
-/

namespace ModuleAtlas

set_option autoImplicit false

inductive Document where
  | text (value : String)
  | number (value : Nat)
  | truth (value : Bool)
  | list (items : List Document)
  | record (fields : List (String × Document))
  deriving Repr, Inhabited

namespace Document

def texts (values : List String) : Document := list (values.map text)

def hexDigit (n : Nat) : Char :=
  if n < 10 then Char.ofNat (48 + n) else Char.ofNat (87 + n)

/-- A character inside quotes. Quotes, backslashes and control characters are escaped. -/
def escape (c : Char) : List Char :=
  if c == '"' then ['\\', '"']
  else if c == '\\' then ['\\', '\\']
  else if c.toNat == 8 then ['\\', 'b']
  else if c.toNat == 9 then ['\\', 't']
  else if c.toNat == 10 then ['\\', 'n']
  else if c.toNat == 12 then ['\\', 'f']
  else if c.toNat == 13 then ['\\', 'r']
  else if c.toNat < 32 then
    ['\\', 'u', '0', '0', hexDigit (c.toNat / 16), hexDigit (c.toNat % 16)]
  else [c]

def writeText (s : String) (rest : List Char) : List Char :=
  '"' :: s.toList.flatMap escape ++ '"' :: rest

def newLine (level : Nat) (rest : List Char) : List Char :=
  '\n' :: (List.replicate (2 * level) ' ' ++ rest)

def openingBrace : Char := Char.ofNat 123

def closingBrace : Char := Char.ofNat 125

mutual

/-- A document that starts on a line of the given level. -/
def write (level : Nat) : Document → List Char → List Char
  | .text s, rest => writeText s rest
  | .number n, rest => (toString n).toList ++ rest
  | .truth b, rest => (if b then "true" else "false").toList ++ rest
  | .list [], rest => '[' :: ']' :: rest
  | .list (x :: xs), rest => '[' :: newLine (level + 1) (write (level + 1) x (writeItems level xs rest))
  | .record [], rest => openingBrace :: closingBrace :: rest
  | .record ((name, x) :: fields), rest =>
    openingBrace :: newLine (level + 1)
      (writeText name (':' :: ' ' :: write (level + 1) x (writeFields level fields rest)))

def writeItems (level : Nat) : List Document → List Char → List Char
  | [], rest => newLine level (']' :: rest)
  | x :: xs, rest => ',' :: newLine (level + 1) (write (level + 1) x (writeItems level xs rest))

def writeFields (level : Nat) : List (String × Document) → List Char → List Char
  | [], rest => newLine level (closingBrace :: rest)
  | (name, x) :: fields, rest =>
    ',' :: newLine (level + 1)
      (writeText name (':' :: ' ' :: write (level + 1) x (writeFields level fields rest)))

end

def written (d : Document) : String := String.ofList (d.write 0 [])

end Document

end ModuleAtlas
