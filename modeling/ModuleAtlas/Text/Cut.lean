/-!
# Cutting text

Texts are cut as lists of characters. Blanks are the white space of Unicode.
-/

namespace ModuleAtlas.Text

set_option autoImplicit false

def after? (start text : String) : Option String :=
  if start.toList.isPrefixOf text.toList then
    some (String.ofList (text.toList.drop start.toList.length))
  else none

def startsWith (start text : String) : Bool := start.toList.isPrefixOf text.toList

def trimStart (p : Char → Bool) (text : String) : String :=
  String.ofList (text.toList.dropWhile p)

def trim (p : Char → Bool) (text : String) : String :=
  String.ofList (((text.toList.dropWhile p).reverse.dropWhile p).reverse)

/-- The stretches of a list between separators; there is always at least one. -/
def split (p : Char → Bool) : List Char → List (List Char)
  | [] => [[]]
  | c :: rest =>
    if p c then [] :: split p rest
    else match split p rest with
      | [] => [[c]]
      | w :: ws => (c :: w) :: ws

/-- ASCII letters in lower case, everything else unchanged. -/
def lowerAscii (text : String) : String := String.ofList (text.toList.map Char.toLower)

def isBlank (c : Char) : Bool :=
  let n := c.toNat
  (9 ≤ n && n ≤ 13) || n == 32 || n == 0x85 || n == 0xA0 || n == 0x1680
    || (0x2000 ≤ n && n ≤ 0x200A) || n == 0x2028 || n == 0x2029 || n == 0x202F || n == 0x205F
    || n == 0x3000

def isBlankText (text : String) : Bool := text.toList.all isBlank

end ModuleAtlas.Text
