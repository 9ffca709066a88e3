import ModuleAtlas.Text.Letter

/-!
# Words joined by hyphens

A name is cut at everything that is no letter or numeral, between a lower-case and an
upper-case letter, and before the last capital of a run that a lower-case letter follows.
-/

namespace ModuleAtlas.Kebab

set_option autoImplicit false

inductive Mode where
  | fresh | lower | upper
  deriving DecidableEq, Repr

def Mode.next (mode : Mode) (c : Char) : Mode :=
  if Letter.isLower c then .lower else if Letter.isUpper c then .upper else mode

/-- The words of a piece without separators; `word` holds the current one, last character first. -/
def pieceWords : Mode → List Char → List Char → List (List Char)
  | _, word, [] => if word.isEmpty then [] else [word.reverse]
  | _, word, [c] => [(c :: word).reverse]
  | mode, word, c :: next :: rest =>
    if mode.next c == .lower && Letter.isUpper next then
      (c :: word).reverse :: pieceWords .fresh [] (next :: rest)
    else if mode == .upper && Letter.isUpper c && Letter.isLower next then
      word.reverse :: pieceWords .fresh [c] (next :: rest)
    else pieceWords (mode.next c) (c :: word) (next :: rest)

def pieces : List Char → List Char → List (List Char)
  | word, [] => [word.reverse]
  | word, c :: rest =>
    if Letter.isAlphanumeric c then pieces (c :: word) rest else word.reverse :: pieces [] rest

def words (name : String) : List (List Char) :=
  (pieces [] name.toList).flatMap (pieceWords .fresh [])

/-- A word in lower case; a capital sigma at its end takes the final form. -/
def lowerWord : List Char → List Char
  | [] => []
  | [c] => if c.toNat == 0x3A3 then [Char.ofNat 0x3C2] else Letter.lower c
  | c :: rest => Letter.lower c ++ lowerWord rest

def ofName (name : String) : String :=
  String.ofList (List.intercalate ['-'] ((words name).map lowerWord))

end ModuleAtlas.Kebab
