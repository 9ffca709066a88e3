import ModuleAtlas.Syntax.Parser

/-!
# Names, literals and bracketed expressions

A word is a keyword only where the grammar asks for that keyword; elsewhere it is a name.
-/

namespace ModuleAtlas.Grammar

set_option autoImplicit false

open ModuleAtlas.Parser

/-- Words that start an expression of their own and so are no names there. -/
def operandKeywords : List String :=
  ["function", "class", "new", "this", "super", "true", "false", "null", "undefined", "typeof",
    "void", "delete", "await", "yield", "import"]

def plainName (kind : Kind) : Parser Node := wordWhere kind (!operandKeywords.contains ·)

def afterExpression : Semicolon.Place := ⟨true, false⟩

def afterClause : Semicolon.Place := ⟨false, false⟩

def sequence (flow : Flow) : Parser Node := do
  let first ← goal (.expression flow)
  let rest ← many do
    ensure !(← stopsHere flow)
    let comma ← mark ","
    let next ← goal (.expression flow)
    return [comma, next]
  if rest.isEmpty then return first else node .sequenceExpression (first :: rest)

def spread : Parser Node := do
  let dots ← mark "..."
  let value ← goal (.expression .inner)
  node .spreadElement [dots, value]

def stringLiteral : Parser Node := lexeme .string Lexeme.stringEnd?

def numberLiteral : Parser Node := lexeme .number Lexeme.numberEnd?

def regexLiteral : Parser Node := lexeme .regex Lexeme.regexEnd?

def privateName : Parser Node :=
  lexeme .privatePropertyIdentifier fun s i =>
    if s.byte i == 35 then
      let j := Lexeme.wordEnd s (i + 1)
      if i + 1 < j then some j else none
    else none

def templatePiece (hole : Parser Node) : Parser (List Node) := fun site i =>
  let s := site.source
  let j := Lexeme.templateTextEnd s i
  if i < j then some ([.leaf .stringFragment none i (s.slice i j)], j)
  else if s.byte i == 92 then
    match Lexeme.escapeEnd? s i with
    | some k => some ([.leaf .stringFragment none i (s.slice i k)], k)
    | none => none
  else if s.byte i == 36 then
    match hole site i with
    | some (n, k) => some ([n], k)
    | none => none
  else none

def template (kind : Kind) (hole : Parser Node) : Parser Node := do
  let opening ← mark "`"
  let pieces ← many (templatePiece hole)
  let closing ← mark "`"
  node kind (opening :: pieces ++ [closing])

def templateString : Parser Node :=
  template .templateString do
    let opening ← mark "$\x7b"
    let value ← sequence .inner
    let closing ← mark "\x7d"
    node .templateSubstitution [opening, value, closing]

def computedName : Parser Node := do
  let opening ← mark "["
  let value ← goal (.expression .inner)
  let closing ← mark "]"
  node .computedPropertyName [opening, value, closing]

def propertyName : Parser Node := do
  let b ← nextByte
  if b == 91 then computedName
  else if b == 34 || b == 39 then stringLiteral
  else if b == 35 then privateName
  else numberLiteral <|> word .propertyIdentifier

def startsPropertyName (s : Source) (i : Nat) : Bool :=
  let b := s.byte i
  b == 91 || b == 34 || b == 39 || b == 35 || Lexeme.isDigit b
    || (b == 46 && Lexeme.isDigit (s.byte (i + 1))) || Lexeme.wordEnd s i != i

/-- Words that qualify the member whose name follows; a star counts as one. A word that a
semicolon follows is a name itself. -/
def modifiers (ending : Option Semicolon.Place) (words : List String) : Parser (List Node) := do
  let before ← many do
    let w ← keywordOf words
    ensure !(← stopsAt ending)
    let s ← source
    skip
    let i ← position
    ensure (startsPropertyName s i || s.byte i == 42)
    return [if ["public", "private", "protected"].contains w.text then w.asKind .accessibilityModifier
      else if w.text == "override" then w.asKind .overrideModifier else w]
  let star ← maybe (mark "*")
  return before ++ star

/-- Expressions in parentheses; in the typed dialects a single one may have a type after it. -/
def parenthesized : Parser Node := do
  let opening ← mark "("
  let value ← sequence .inner
  let typing ← if (← typed) && value.kind != .sequenceExpression then
      maybe do
        let colon ← mark ":"
        let type ← goal (.type none)
        node .typeMark [colon, type]
    else pure []
  let closing ← mark ")"
  node .parenthesizedExpression ([opening, value] ++ typing ++ [closing])

def argumentsRule : Parser Node := do
  let opening ← mark "("
  let items ← commaGaps (spread <|> goal (.expression .inner))
  let closing ← mark ")"
  node .arguments (opening :: items ++ [closing])

def decorator : Parser Node := do
  let sign ← mark "@"
  let value ← (do
      let opening ← mark "("
      let value ← decorated
      let closing ← mark ")"
      node .parenthesizedExpression [opening, value, closing]) <|> decorated
  node .decorator [sign, value]
where
  decorated : Parser Node := do
    let base ← word .identifier
    let callee ← grow (fun n => do
      let dot ← mark "."
      let name ← word .propertyIdentifier
      node .memberExpression [n, dot, name]) base
    (do
      let types ← if ← typed then maybe (goal .typeArguments) else pure []
      let args ← goal .arguments
      node .callExpression (callee.asRole .function :: types ++ [args.asRole .arguments])) <|> pure callee

def decorators : Parser (List Node) := many do return [← decorator]

end ModuleAtlas.Grammar
