import ModuleAtlas.Syntax.Node
import ModuleAtlas.Syntax.Semicolon

/-!
# Parsers

A parser reads a node from a position on and gives the position after it, or nothing. The
rules of the grammar call each other through goals; `Site.parse` answers a goal, and the
knot is tied once, over all rules, in `ModuleAtlas.Syntax.Tree`.
-/

namespace ModuleAtlas

set_option autoImplicit false

/-- How an expression may end and what it may hold: at a line break (`breaks`), and no
arrow function that states its result type (`plain`). -/
structure Flow where
  breaks : Bool
  plain : Bool
  deriving DecidableEq, Repr

namespace Flow

def inner : Flow := ⟨false, false⟩

def outer : Flow := ⟨true, false⟩

end Flow

inductive Goal where
  | statement
  | block (place : Semicolon.Place)
  | expression (flow : Flow)
  | binary (level : Nat) (flow : Flow)
  | operand (flow : Flow)
  | construction (flow : Flow)
  | pattern
  | parameters
  | arguments
  | type (ending : Option Semicolon.Place)
  | operandType (ending : Option Semicolon.Place)
  | typeArguments
  | typeParameters
  | objectType
  | element
  deriving DecidableEq, Repr

/-- Everything a rule can see: the text, the dialect and the other rules. -/
structure Site where
  source : Source
  dialect : Dialect
  parse : Goal → Nat → Option (Node × Nat)

def Parser (α : Type) := Site → Nat → Option (α × Nat)

namespace Parser

@[inline]
protected def pure {α : Type} (a : α) : Parser α := fun _ i => some (a, i)

@[inline]
protected def bind {α β : Type} (p : Parser α) (f : α → Parser β) : Parser β := fun site i =>
  match p site i with
  | some (a, j) => f a site j
  | none => none

instance : Monad Parser where
  pure := Parser.pure
  bind := Parser.bind

@[inline]
def orElse {α : Type} (p : Parser α) (q : Unit → Parser α) : Parser α := fun site i =>
  match p site i with
  | some r => some r
  | none => q () site i

@[inline]
def fail {α : Type} : Parser α := fun _ _ => none

instance : Alternative Parser where
  failure := fail
  orElse := orElse

@[inline]
def position : Parser Nat := fun _ i => some (i, i)

@[inline]
def source : Parser Source := fun site i => some (site.source, i)

@[inline]
def dialect : Parser Dialect := fun site i => some (site.dialect, i)

@[inline]
def typed : Parser Bool := fun site i => some (site.dialect.hasTypes, i)

@[inline]
def ensure (b : Bool) : Parser Unit := fun _ i => if b then some ((), i) else none

@[inline]
def goal (g : Goal) : Parser Node := fun site i => site.parse g i

@[inline]
def ahead {α : Type} (p : Parser α) : Parser α := fun site i =>
  (p site i).map fun r => (r.1, i)

@[inline]
def maybe (p : Parser Node) : Parser (List Node) := fun site i =>
  match p site i with
  | some (n, j) => some ([n], j)
  | none => some ([], i)

@[inline]
def maybeAll (p : Parser (List Node)) : Parser (List Node) := fun site i =>
  match p site i with
  | some r => some r
  | none => some ([], i)

/-- As often as possible; each round has to move on. -/
def many (p : Parser (List Node)) : Parser (List Node) := fun site i =>
  let (acc, j) := go site (site.source.size + 1 - i) i #[]
  some (acc.toList, j)
where
  go (site : Site) : Nat → Nat → Array Node → Array Node × Nat
    | 0, i, acc => (acc, i)
    | fuel + 1, i, acc =>
      match p site i with
      | some (ns, j) => if i < j then go site fuel j (ns.foldl Array.push acc) else (acc, i)
      | none => (acc, i)

/-- Grow a node to the right as long as the step succeeds and moves on. -/
def grow (step : Node → Parser Node) (n : Node) : Parser Node := fun site i =>
  some (go site (site.source.size + 1 - i) n i)
where
  go (site : Site) : Nat → Node → Nat → Node × Nat
    | 0, n, i => (n, i)
    | fuel + 1, n, i =>
      match step n site i with
      | some (m, j) => if i < j then go site fuel m j else (n, i)
      | none => (n, i)

@[inline]
def skip : Parser Unit := fun site i => some ((), Lexeme.skipTrivia site.source i)

@[inline]
def skipWide : Parser Unit := fun site i => some ((), Lexeme.skipWideTrivia site.source i)

@[inline]
def nextByte : Parser UInt8 := fun site i =>
  some (site.source.byte (Lexeme.skipTrivia site.source i), i)

@[inline]
def nextBytes : Parser (UInt8 × UInt8) := fun site i =>
  let j := Lexeme.skipTrivia site.source i
  some ((site.source.byte j, site.source.byte (j + 1)), i)

def looking (text : String) : Parser Bool := fun site i =>
  some (site.source.startsWith (Lexeme.skipTrivia site.source i) text, i)

def atEnd : Parser Bool := fun site i =>
  some (site.source.size ≤ Lexeme.skipTrivia site.source i, i)

/-- Punctuation, whatever comes after it. -/
def mark (text : String) : Parser Node := fun site i =>
  let j := Lexeme.skipTrivia site.source i
  if site.source.startsWith j text then some (.leaf .symbol none j text, j + text.utf8ByteSize)
  else none

/-- An equals sign that is no part of a longer operator. -/
def equals : Parser Node := fun site i =>
  let j := Lexeme.skipTrivia site.source i
  let next := site.source.byte (j + 1)
  if site.source.byte j == 61 && next != 61 && next != 62 then
    some (.leaf .symbol none j "=", j + 1)
  else none

@[inline]
def lexeme (kind : Kind) (stop? : Source → Nat → Option Nat) : Parser Node := fun site i =>
  let j := Lexeme.skipTrivia site.source i
  match stop? site.source j with
  | some k => some (.leaf kind none j (site.source.slice j k), k)
  | none => none

def nextWord : Parser String := fun site i =>
  let j := Lexeme.skipTrivia site.source i
  let k := Lexeme.wordEnd site.source j
  some (if j < k then site.source.slice j k else "", i)

def word (kind : Kind) : Parser Node := fun site i =>
  let j := Lexeme.skipTrivia site.source i
  let k := Lexeme.wordEnd site.source j
  if j < k then some (.leaf kind none j (site.source.slice j k), k) else none

def wordWhere (kind : Kind) (ok : String → Bool) : Parser Node := fun site i =>
  let j := Lexeme.skipTrivia site.source i
  let k := Lexeme.wordEnd site.source j
  if j < k then
    let text := site.source.slice j k
    if ok text then some (.leaf kind none j text, k) else none
  else none

def keyword (text : String) : Parser Node := fun site i =>
  let j := Lexeme.skipTrivia site.source i
  let k := Lexeme.wordEnd site.source j
  if k == j + text.utf8ByteSize && site.source.startsWith j text then
    some (.leaf .symbol none j text, k)
  else none

def keywordOf (texts : List String) : Parser Node := wordWhere .symbol texts.contains

def node (kind : Kind) (children : List Node) : Parser Node := fun _ i =>
  match children with
  | first :: _ => some (.branch kind none first.start i children, i)
  | [] => some (.branch kind none i i [], i)

def endsHere (place : Semicolon.Place) : Parser Bool := fun site i =>
  some ((Semicolon.end? site.dialect site.source place i).isSome, i)

@[inline]
def stopsHere (flow : Flow) : Parser Bool :=
  if flow.breaks then endsHere ⟨true, false⟩ else pure false

@[inline]
def stopsAt (ending : Option Semicolon.Place) : Parser Bool :=
  match ending with
  | some place => endsHere place
  | none => pure false

/-- An inserted semicolon, if there is one, belongs to what was read. -/
def settle (place : Semicolon.Place) : Parser Unit := fun site i =>
  some ((), (Semicolon.end? site.dialect site.source place i).getD i)

def semicolon (place : Semicolon.Place) : Parser (List Node) := fun site i =>
  match Semicolon.end? site.dialect site.source place i with
  | some j => some ([], j)
  | none =>
    match mark ";" site i with
    | some (n, j) => some ([n], j)
    | none => none

def commaSeparated (item : Parser Node) : Parser (List Node) := do
  let first ← item
  let rest ← many do
    let comma ← mark ","
    let next ← item
    return [comma, next]
  return first :: rest

def commaGaps (item : Parser Node) : Parser (List Node) := do
  let first ← maybe item
  let rest ← many do
    let comma ← mark ","
    let next ← maybe item
    return comma :: next
  return first ++ rest

def commaTrailed (item : Parser Node) : Parser (List Node) := do
  let items ← commaSeparated item
  let last ← maybe (mark ",")
  return items ++ last

end Parser

end ModuleAtlas
