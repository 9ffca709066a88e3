import ModuleAtlas.Syntax.Grammar.Types

/-!
# Patterns, parameters and functions
-/

namespace ModuleAtlas.Grammar

set_option autoImplicit false

open ModuleAtlas.Parser

def assignable : Parser Node := do
  let w ← nextWord
  let base ← if w == "this" || w == "super" then
      word (if w == "this" then .thisWord else .superWord)
    else if w == "undefined" then word .undefinedWord
    else plainName .identifier
  let target ← grow (fun n => do
    let b ← nextByte
    if b == 91 then
      let opening ← mark "["
      let index ← sequence .inner
      let closing ← mark "]"
      node .subscriptExpression [n, opening, index, closing]
    else
      let dot ← mark "?." <|> mark "."
      let name ← privateName <|> word .propertyIdentifier
      node .memberExpression [n, dot, name]) base
  ensure (target.kind != .thisWord && target.kind != .superWord)
  return target

def initializer (flow : Flow) : Parser (List Node) := do
  let sign ← equals
  let value ← goal (.expression flow)
  return [sign, value.asRole .value]

def defaulted (target : Parser Node) : Parser Node := do
  let left ← target
  (do
    let sign ← equals
    let right ← goal (.expression .inner)
    node .assignmentPattern [left, sign, right]) <|> pure left

def restPattern : Parser Node := do
  let dots ← mark "..."
  let target ← goal .pattern
  node .restPattern [dots, target]

def objectPatternElement : Parser Node :=
  restPattern
  <|> (do
    let key ← propertyName
    let colon ← mark ":"
    let value ← defaulted (goal .pattern)
    node .pairPattern [key, colon, value])
  <|> (do
    let name ← word .shorthandPropertyIdentifierPattern
    (do
      let sign ← equals
      let right ← goal (.expression .inner)
      node .objectAssignmentPattern [name, sign, right]) <|> pure name)

def objectPattern : Parser Node := do
  let opening ← mark "\x7b"
  let items ← commaGaps objectPatternElement
  let closing ← mark "\x7d"
  node .objectPattern (opening :: items ++ [closing])

def arrayPattern : Parser Node := do
  let opening ← mark "["
  let items ← commaGaps (restPattern <|> defaulted (goal .pattern))
  let closing ← mark "]"
  node .arrayPattern (opening :: items ++ [closing])

def destructuring : Parser Node := do
  let b ← nextByte
  if b == 123 then objectPattern
  else if b == 91 then arrayPattern
  else fail

def patternRule : Parser Node := do
  let b ← nextByte
  if b == 123 || b == 91 then destructuring else assignable

def plainParameter : Parser Node := restPattern <|> defaulted (goal .pattern)

def parameterModifiers : Parser (List Node) := many do
  let w ← keywordOf ["public", "private", "protected", "override", "readonly"]
  let (b, _) ← nextBytes
  ensure (b == 123 || b == 91 || (← nextWord) != "")
  return [w]

def typedParameter : Parser Node := do
  let marks ← decorators
  let before ← parameterModifiers
  let target ← (do
      ensure ((← nextWord) == "this")
      let word ← word .thisWord
      let b ← nextByte
      ensure (b == 58 || b == 44 || b == 41)
      return word)
    <|> restPattern <|> goal .pattern
  let question ← maybe (mark "?")
  let typing ← maybe (typeMark none)
  let value ← maybeAll (initializer .inner)
  node (if question.isEmpty then .requiredParameter else .optionalParameter)
    (marks ++ before ++ [target] ++ question ++ typing ++ value)

def parametersRule : Parser Node := do
  let opening ← mark "("
  let items ← maybeAll (commaTrailed (if ← typed then typedParameter else plainParameter))
  let closing ← mark ")"
  node .formalParameters (opening :: items ++ [closing])

def functionHead (flow : Flow) : Parser (List Node) := do
  let async ← maybe do
    let w ← keyword "async"
    ensure !(← stopsHere flow)
    return w
  let function ← keyword "function"
  let star ← maybe (mark "*")
  return async ++ [function] ++ star

def isGenerator (head : List Node) : Bool := head.any (·.text == "*")

def functionExpression (flow : Flow) : Parser Node := do
  let head ← functionHead flow
  let name ← maybe (word .identifier)
  let rest ← signature none
  let body ← goal (.block afterExpression)
  node (if isGenerator head then .generatorFunction else .functionExpression)
    (head ++ name.map (·.asRole .name) ++ rest ++ [body])

/-- A function with a name; without a body it is a signature. -/
def functionDeclaration (place : Semicolon.Place) : Parser Node := do
  let head ← functionHead .outer
  let name ← word .identifier
  let front := head ++ [name.asRole .name]
  let closed : Semicolon.Place := ⟨false, true⟩
  let rest ← signature (some closed)
  if (← nextByte) == 123 then
    let body ← goal (.block place)
    settle place
    node (if isGenerator head then .generatorFunctionDeclaration else .functionDeclaration)
      (front ++ rest ++ [body])
  else
    ensure ((← typed) && !isGenerator head)
    let ending ← semicolon closed
    node .functionSignature (front ++ rest ++ ending)

/-- Does a brace open here with a key and a colon after it? -/
def opensPairs : Parser Bool := fun site i =>
  let s := site.source
  let j := Lexeme.skipTrivia s (Lexeme.skipTrivia s i + 1)
  let k := (Lexeme.stringEnd? s j).getD ((Lexeme.numberEnd? s j).getD (Lexeme.wordEnd s j))
  some (j < k && s.byte (Lexeme.skipTrivia s k) == 58, i)

def arrowBody (flow : Flow) : Parser Node := do
  if (← nextByte) == 123 then
    goal (.block afterExpression) <|> (do
      ensure (← opensPairs)
      goal (.expression flow))
  else goal (.expression flow)

def arrowHead (flow : Flow) : Parser (List Node) := do
  if ← typed then
    let types ← maybe (goal .typeParameters)
    let parameters ← goal .parameters
    let result ← if flow.plain then pure [] else maybe (resultMark none)
    let arrow ← mark "=>"
    return types ++ [parameters] ++ result ++ [arrow]
  else
    let parameters ← goal .parameters
    let arrow ← mark "=>"
    return [parameters, arrow]

/-- Can the parentheses that open here hold parameters? A quick look that spares a full attempt. -/
def mayBeParameters : Parser Bool := fun site i =>
  let s := site.source
  let opening := Lexeme.skipTrivia s i
  let j := Lexeme.skipTrivia s (opening + 1)
  let b := s.byte j
  if s.byte opening != 40 then some (false, i)
  else if b == 41 || b == 123 || b == 91 || b == 46 || b == 64 then some (true, i)
  else
    let k := Lexeme.wordEnd s j
    if k == j then some (false, i)
    else
      let m := Lexeme.skipTrivia s k
      let c := s.byte m
      let next := s.byte (m + 1)
      some (c == 44 || c == 41 || (c == 61 && next != 61 && next != 62) || c == 58 || c == 46 || c == 91
        || (site.dialect.hasTypes && (c == 63 || c == 123 || Lexeme.wordEnd s m != m)), i)

def arrowFunction (flow : Flow) : Parser Node := do
  let async ← maybe do
    let w ← keyword "async"
    ensure !(← stopsHere flow)
    return w
  ensure ((← nextByte) == 60 || (← mayBeParameters))
  let head ← arrowHead flow
  let body ← arrowBody flow
  node .arrowFunction (async ++ head ++ [body])

def bareArrowFunction (flow : Flow) : Parser Node := do
  let async ← maybe do
    let w ← keyword "async"
    ensure !(← stopsHere flow)
    ensure ((← nextWord) != "")
    return w
  let parameter ← plainName .identifier
  let arrow ← mark "=>"
  let body ← arrowBody flow
  node .arrowFunction (async ++ [parameter, arrow, body])

end ModuleAtlas.Grammar
