import ModuleAtlas.Syntax.Grammar.Classes
import ModuleAtlas.Syntax.Grammar.Markup

/-!
# Expressions

Operands with what is written after them, then operators by level. An assignment or an
arrow function may stand wherever an operand may, and takes everything to its right.
-/

namespace ModuleAtlas.Grammar

set_option autoImplicit false

open ModuleAtlas.Parser

def objectModifiers (isTyped : Bool) : List String :=
  if isTyped then memberModifiers else plainClassModifiers

def objectElement : Parser Node :=
  spread <|> (do
    let isTyped ← typed
    let before ← modifiers none (objectModifiers isTyped)
    let name ← propertyName
    let question ← if isTyped then
        maybe do
          let question ← mark "?"
          ensure ((← nextByte) == 40 || (← nextByte) == 60)
          return question
      else pure []
    let b ← nextByte
    if b == 40 || (isTyped && b == 60) then
      let rest ← signature none
      let body ← goal (.block afterClause)
      node .methodDefinition (before ++ [name.asRole .name] ++ question ++ rest ++ [body])
    else
      ensure before.isEmpty
      if b == 58 then
        let colon ← mark ":"
        let value ← goal (.expression .inner)
        node .pair [name, colon, value.asRole .value]
      else
        ensure (name.kind == .propertyIdentifier)
        return name.asKind .shorthandPropertyIdentifier)

def objectLiteral : Parser Node := do
  let opening ← mark "\x7b"
  let items ← commaGaps objectElement
  let closing ← mark "\x7d"
  node .object (opening :: items ++ [closing])

def arrayLiteral : Parser Node := do
  let opening ← mark "["
  let items ← commaGaps (spread <|> goal (.expression .inner))
  let closing ← mark "]"
  node .array (opening :: items ++ [closing])

def callOf (callee : Node) (middle : List Node) : Parser Node := do
  let args ← goal .arguments
  node .callExpression (callee.asRole .function :: middle ++ [args.asRole .arguments])

/-- The word `import` as a function or as a source of module facts. -/
def importExpression : Parser Node := do
  let word ← keyword "import"
  (do
    let dot ← mark "."
    let name ← word' "meta"
    node .metaProperty [word, dot, name])
  <|> (do
    let dot ← mark "."
    let name ← Parser.word .propertyIdentifier
    node .memberExpression [word.asKind .importKeyword, dot, name])
  <|> callOf (word.asKind .importKeyword) []
where
  word' (text : String) : Parser Node := keyword text

def wordExpression (flow : Flow) : Parser Node := do
  let w ← nextWord
  match w with
  | "" => fail
  | "function" => functionExpression flow
  | "class" => classExpression
  | "new" =>
    if ← typed then goal (.construction flow) <|> word .identifier else goal (.construction flow)
  | "this" => word .thisWord
  | "super" => word .superWord
  | "true" => word .trueWord
  | "false" => word .falseWord
  | "null" => word .nullWord
  | "undefined" => word .undefinedWord
  | "import" => importExpression
  | "async" =>
    functionExpression flow <|> arrowFunction flow <|> bareArrowFunction flow <|> word .identifier
  | _ => bareArrowFunction flow <|> plainName .identifier

def primary (flow : Flow) : Parser Node := do
  let (b, next) ← nextBytes
  if b == 40 then arrowFunction flow <|> parenthesized
  else if b == 91 then arrayLiteral
  else if b == 123 then objectLiteral
  else if b == 34 || b == 39 then stringLiteral
  else if b == 96 then templateString
  else if b == 47 then regexLiteral
  else if b == 64 then classExpression
  else if b == 35 then do
    let name ← privateName
    ensure ((← nextWord) == "in")
    return name
  else if b == 60 then
    match ← dialect with
    | .script => goal .element
    | .typed => arrowFunction flow <|> (do
        let types ← goal .typeArguments
        let value ← goal (.operand flow)
        node .typeAssertion [types, value])
    | .typedMarkup => arrowFunction flow <|> goal .element
  else if Lexeme.isDigit b || (b == 46 && Lexeme.isDigit next) then numberLiteral
  else wordExpression flow

def memberStep (n : Node) : Parser Node := do
  let dot ← mark "."
  let name ← privateName <|> word .propertyIdentifier
  node .memberExpression [n, dot, name]

def subscriptStep (n : Node) (middle : List Node) : Parser Node := do
  let opening ← mark "["
  let index ← sequence .inner
  let closing ← mark "]"
  node .subscriptExpression (n :: middle ++ [opening, index, closing])

/-- A member, element or call that is skipped when there is no value. -/
def optionalStep (n : Node) : Parser Node := do
  let chain ← mark "?."
  let s ← source
  ensure !(Lexeme.isDigit (s.byte (← position)))
  let chain := chain.asKind .optionalChain
  let b ← nextByte
  if b == 91 then subscriptStep n [chain]
  else if b == 40 then callOf n [chain]
  else if b == 60 && (← typed) then do
    let types ← goal .typeArguments
    callOf n [chain, types]
  else
    let name ← privateName <|> word .propertyIdentifier
    node .memberExpression [n, chain, name]

def taggedStep (n : Node) : Parser Node := do
  let text ← templateString
  node .callExpression [n.asRole .function, text.asRole .arguments]

def startsOperand (s : Source) (i : Nat) : Bool :=
  let b := s.byte i
  b == 40 || b == 91 || b == 34 || b == 39 || b == 96 || b == 47 || b == 35 || b == 64 || b == 60
    || b == 33 || b == 126 || b == 43 || b == 45
    || Lexeme.isDigit b || (b == 46 && Lexeme.isDigit (s.byte (i + 1)))
    || (Lexeme.wordEnd s i != i
      && ! (["in", "of", "as", "instanceof", "satisfies", "implements"].contains (s.slice i (Lexeme.wordEnd s i))))

/-- Type arguments after a value: a call with them, or the value for those types. -/
def instantiationStep (n : Node) : Parser Node := do
  let types ← goal .typeArguments
  let s ← source
  let b := s.byte (← position)
  ensure (b != 61 && b != 62)
  if (← nextByte) == 40 then callOf n [types]
  else
    let i ← position
    ensure !(startsOperand s (Lexeme.skipTrivia s i))
    node .instantiationExpression [n, types]

def postfixStep (flow : Flow) (n : Node) : Parser Node := do
  ensure !(← stopsHere flow)
  let (b, next) ← nextBytes
  if b == 46 then memberStep n
  else if b == 40 then callOf n []
  else if b == 91 then subscriptStep n []
  else if b == 63 && next == 46 then optionalStep n
  else if b == 96 then do
    ensure (n.kind != .arrowFunction)
    taggedStep n
  else if b == 33 then do
    ensure ((← typed) && next != 61)
    let sign ← mark "!"
    node .nonNullExpression [n, sign]
  else if b == 60 then do
    ensure ((← typed) && next != 60)
    instantiationStep n
  else if (b == 43 || b == 45) && next == b then do
    let sign ← mark (if b == 43 then "++" else "--")
    node .updateExpression [n, sign]
  else fail

def constructorStep (n : Node) : Parser Node := do
  let (b, next) ← nextBytes
  if b == 46 then memberStep n
  else if b == 91 then subscriptStep n []
  else if b == 63 && next == 46 then do
    let chain ← mark "?."
    let name ← privateName <|> word .propertyIdentifier
    node .memberExpression [n, chain.asKind .optionalChain, name]
  else if b == 96 then taggedStep n
  else fail

/-- A new object, or the function that `new` was applied to. -/
def constructionRule (flow : Flow) : Parser Node := do
  let new ← keyword "new"
  (do
    let dot ← mark "."
    let target ← keyword "target"
    node .metaProperty [new, dot, target])
  <|> (do
    let b ← nextByte
    let base ← if b == 40 then parenthesized
      else if (← nextWord) == "new" then goal (.construction flow)
      else primary flow
    let callee ← grow constructorStep base
    let types ← if ← typed then maybe (goal .typeArguments) else pure []
    let args ← if ← stopsHere flow then pure [] else maybe (goal .arguments)
    node .newExpression (new :: callee :: types ++ args))

def isTarget : Kind → Bool
  | .identifier | .undefinedWord | .memberExpression | .subscriptExpression
  | .parenthesizedExpression | .nonNullExpression => true
  | _ => false

def assignmentOperators : List String :=
  [">>>=", "<<=", ">>=", "**=", "&&=", "||=", "??=", "+=", "-=", "*=", "/=", "%=", "^=", "&=", "|="]

def assigned (flow : Flow) (n : Node) : Parser Node := do
  if isTarget n.kind then
    let b ← nextByte
    if b == 59 || b == 41 || b == 44 || b == 46 then return n
    else
      (do
        let sign ← equals
        let value ← goal (.expression flow)
        node .assignmentExpression [n, sign, value])
      <|> (do
        ensure (n.kind != .undefinedWord)
        ensure !(← stopsHere flow)
        let s ← source
        let i ← position
        let j := Lexeme.skipTrivia s i
        match assignmentOperators.find? (s.startsWith j) with
        | some text =>
          let sign ← mark text
          let value ← goal (.expression flow)
          node .augmentedAssignmentExpression [n, sign.asRole .operator, value]
        | none => fail)
      <|> pure n
  else return n

def destructuringAssignment (flow : Flow) : Parser Node := do
  let target ← destructuring
  let sign ← equals
  let value ← goal (.expression flow)
  node .assignmentExpression [target, sign, value]

def unary (flow : Flow) (sign : Node) : Parser Node := do
  let value ← goal (.operand flow)
  node .unaryExpression [sign.asRole .operator, value]

def yieldExpression (flow : Flow) : Parser Node := do
  let yield ← keyword "yield"
  if ← stopsHere flow then node .yieldExpression [yield]
  else
    (do
      let star ← mark "*"
      let value ← goal (.expression flow)
      node .yieldExpression [yield, star, value])
    <|> (do
      let value ← maybe (goal (.expression flow))
      node .yieldExpression (yield :: value))

def chained (flow : Flow) : Parser Node := do
  let base ← primary flow
  let n ← grow (postfixStep flow) base
  assigned flow n

def operandRule (flow : Flow) : Parser Node := do
  skipWide
  let (b, next) ← nextBytes
  if b == 33 then do unary flow (← mark "!")
  else if b == 126 then do unary flow (← mark "~")
  else if (b == 43 || b == 45) && next == b then do
    let sign ← mark (if b == 43 then "++" else "--")
    let value ← goal (.operand flow)
    node .updateExpression [sign, value]
  else if b == 43 then do unary flow (← mark "+")
  else if b == 45 then do unary flow (← mark "-")
  else if b == 123 || b == 91 then destructuringAssignment flow <|> chained flow
  else
    match ← nextWord with
    | "typeof" => do unary flow (← keyword "typeof")
    | "void" => do unary flow (← keyword "void")
    | "delete" => do unary flow (← keyword "delete")
    | "await" => do
      let await ← keyword "await"
      let value ← goal (.operand flow)
      node .awaitExpression [await, value]
    | "yield" => yieldExpression flow
    | _ => chained flow

/-- Binary operators, longest first, with their level; a higher level binds tighter. -/
def binaryOperators : List (String × Nat) :=
  [("===", 7), ("!==", 7), (">>>", 9), ("==", 7), ("!=", 7), ("<=", 8), (">=", 8), ("&&", 3), ("||", 2),
    ("??", 1), ("<<", 9), (">>", 9), ("**", 12), ("<", 8), (">", 8), ("+", 10), ("-", 10), ("*", 11),
    ("/", 11), ("%", 11), ("&", 6), ("|", 4), ("^", 5)]

def operatorAt (s : Source) (j : Nat) : Option (String × Nat) :=
  let b := s.byte j
  if b == 105 then
    let w := s.slice j (Lexeme.wordEnd s j)
    if w == "in" || w == "instanceof" then some (w, 8) else none
  else if b == 61 || b == 33 || b == 60 || b == 62 || b == 38 || b == 124 || b == 63 || b == 42
      || b == 43 || b == 45 || b == 47 || b == 37 || b == 94 then
    if (assignmentOperators.find? (s.startsWith j)).isSome then none
    else binaryOperators.find? (s.startsWith j ·.1)
  else none

def ternaryStep (flow : Flow) (condition : Node) : Parser Node := do
  let question ← mark "?"
  let (yes, colon) ← branch false <|> branch true
  let no ← goal (.expression flow)
  node .ternaryExpression [condition, question, yes, colon, no]
where
  branch (plain : Bool) : Parser (Node × Node) := do
    let yes ← goal (.expression ⟨false, plain⟩)
    let colon ← mark ":"
    return (yes, colon)

def assertionStep (flow : Flow) (value : Node) : Parser Node := do
  let ending : Ending := if flow.breaks then some afterExpression else none
  (do
    let as ← keyword "as"
    let type ← keyword "const" <|> goal (.type ending)
    node .asExpression [value, as, type])
  <|> (do
    let satisfies ← keyword "satisfies"
    let type ← goal (.type ending)
    node .satisfiesExpression [value, satisfies, type])

def binaryStep (level : Nat) (flow : Flow) (left : Node) : Parser Node := do
  ensure !(← stopsHere flow)
  let s ← source
  let j := Lexeme.skipTrivia s (← position)
  match operatorAt s j with
  | some (text, p) =>
    ensure (level ≤ p)
    let sign ← if text == "in" || text == "instanceof" then keyword text else mark text
    let right ← goal (.binary (if p == 12 then p else p + 1) flow)
    node .binaryExpression [left, sign.asRole .operator, right]
  | none =>
    let b := s.byte j
    if b == 63 then
      ensure (level ≤ 1)
      ternaryStep flow left
    else
      ensure ((b == 97 || b == 115) && level ≤ 8 && (← typed))
      assertionStep flow left

def binaryRule (level : Nat) (flow : Flow) : Parser Node := do
  let first ← goal (.operand flow)
  grow (binaryStep level flow) first

end ModuleAtlas.Grammar
