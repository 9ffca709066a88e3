import ModuleAtlas.Syntax.Grammar.Name

/-!
# Types

Types of the typed dialects: unions, functions, conditionals, object types and so on.
-/

namespace ModuleAtlas.Grammar

set_option autoImplicit false

open ModuleAtlas.Parser

abbrev Ending := Option Semicolon.Place

def predefinedTypes : List String :=
  ["any", "number", "boolean", "string", "symbol", "void", "unknown", "never", "object"]

/-- A bar or an ampersand that is not doubled. -/
def typeOperator (text : String) (code : UInt8) : Parser Node := do
  let (_, next) ← nextBytes
  ensure (next != code)
  mark text

/-- Operands with an operator between them, perhaps also before the first. -/
def typeChain (kind : Kind) (text : String) (code : UInt8) (ending : Ending) (operand : Parser Node) :
    Parser Node := do
  let first ← (do
      let leading ← typeOperator text code
      let right ← operand
      node kind [leading, right]) <|> operand
  grow (fun left => do
    ensure !(← stopsAt ending)
    let middle ← typeOperator text code
    let right ← operand
    node kind [left, middle, right]) first

def intersectionType (ending : Ending) : Parser Node :=
  typeChain .intersectionType "&" 38 ending (goal (.operandType ending))

def unionType (ending : Ending) : Parser Node :=
  typeChain .unionType "|" 124 ending (intersectionType ending)

def typeRule (ending : Ending) : Parser Node := do
  let left ← unionType ending
  if ← stopsAt ending then return left
  else
    (do
      let word ← keyword "extends"
      let right ← goal (.type none)
      let question ← mark "?"
      let yes ← goal (.type none)
      let colon ← mark ":"
      let no ← goal (.type ending)
      node .conditionalType [left, word, right, question, yes, colon, no]) <|> pure left

def typeMark (ending : Ending) : Parser Node := do
  let colon ← mark ":"
  let type ← goal (.type ending)
  node .typeMark [colon, type]

/-- A type after a colon, where the dialect has types and one is written. -/
def optionalMark (ending : Ending) : Parser (List Node) := do
  if ← typed then maybe (typeMark ending) else pure []

def typePredicate (ending : Ending) : Parser Node := do
  let subject ← (do return (← keyword "this").asKind .thisWord) <|> word .identifier
  let is ← keyword "is"
  let type ← goal (.type ending)
  node .typePredicate [subject, is, type]

def assertsType (ending : Ending) : Parser Node := do
  let asserts ← keyword "asserts"
  let what ← typePredicate ending <|> (do return (← keyword "this").asKind .thisWord)
    <|> word .identifier
  node .asserts [asserts, what]

def resultType (ending : Ending) : Parser Node :=
  assertsType ending <|> typePredicate ending <|> goal (.type ending)

def resultMark (ending : Ending) : Parser Node := do
  let colon ← mark ":"
  let type ← resultType ending
  match type.kind with
  | .asserts => node .assertsMark [colon, type]
  | .typePredicate => node .typePredicateMark [colon, type]
  | _ => node .typeMark [colon, type]

def signature (ending : Ending) : Parser (List Node) := do
  if ← typed then
    let types ← maybe (goal .typeParameters)
    let parameters ← goal .parameters
    let result ← maybe (resultMark ending)
    return types ++ [parameters] ++ result
  else return [← goal .parameters]

def typeArgumentsRule : Parser Node := do
  let opening ← mark "<"
  let items ← commaTrailed (goal (.type none))
  let closing ← mark ">"
  node .typeArguments (opening :: items ++ [closing])

def typeParameter : Parser Node := do
  let const ← maybe do
    let w ← keyword "const"
    ensure ((← nextWord) != "")
    return w
  let name ← word .typeIdentifier
  let bound ← maybe do
    let word ← keyword "extends" <|> mark ":"
    let type ← goal (.type none)
    node .constraint [word, type]
  let default ← maybe do
    let sign ← equals
    let type ← goal (.type none)
    node .defaultType [sign, type]
  node .typeParameter (const ++ [name.asRole .name] ++ bound ++ default)

def typeParametersRule : Parser Node := do
  let opening ← mark "<"
  let items ← commaTrailed typeParameter
  let closing ← mark ">"
  node .typeParameters (opening :: items ++ [closing])

def functionType (ending : Ending) : Parser Node := do
  let types ← maybe (goal .typeParameters)
  let parameters ← goal .parameters
  let arrow ← mark "=>"
  let result ← resultType ending
  node .functionType (types ++ [parameters, arrow, result])

def constructorType (ending : Ending) : Parser Node := do
  let abstract ← maybe (keyword "abstract")
  let new ← keyword "new"
  let types ← maybe (goal .typeParameters)
  let parameters ← goal .parameters
  let arrow ← mark "=>"
  let result ← goal (.type ending)
  node .constructorType (abstract ++ [new] ++ types ++ [parameters, arrow, result])

def importedModule : Parser Node := do
  let word ← keyword "import"
  let args ← goal .arguments
  node .callExpression [(word.asKind .importKeyword).asRole .function, args.asRole .arguments]

def memberChain (ending : Ending) (base : Node) : Parser Node :=
  grow (fun n => do
    ensure !(← stopsAt ending)
    let dot ← mark "?." <|> mark "."
    let name ← privateName <|> word .propertyIdentifier
    node .memberExpression [n, dot, name]) base

def typeQuery (ending : Ending) : Parser Node := do
  let typeof ← keyword "typeof"
  let base ← importedModule <|> (do return (← keyword "this").asKind .thisWord) <|> word .identifier
  let value ← memberChain ending base
  let value ← (do
    ensure !(← stopsAt ending)
    let types ← goal .typeArguments
    node .instantiationExpression [value, types]) <|> pure value
  node .typeQuery [typeof, value]

def inferType : Parser Node := do
  let infer ← keyword "infer"
  let name ← word .typeIdentifier
  let bound ← maybeAll do
    let word ← keyword "extends"
    let type ← goal (.type none)
    return [word, type]
  node .inferType ([infer, name] ++ bound)

def namedType (ending : Ending) : Parser Node := do
  let first ← word .typeIdentifier
  let name ← grow (fun n => do
    ensure !(← stopsAt ending)
    let dot ← mark "."
    let next ← word .typeIdentifier
    let outer := match n with
      | .leaf _ r s t => Node.leaf .identifier r s t
      | .branch _ r s e cs => Node.branch .nestedIdentifier r s e cs
    node .nestedTypeIdentifier [outer, dot, next]) first
  (do
    let (b, next) ← nextBytes
    ensure (b == 60 && next != 60)
    let types ← goal .typeArguments
    node .genericType [name, types]) <|> pure name

def tupleMember : Parser Node :=
  (do
    let dots ← maybe (mark "...")
    let name ← word .identifier
    let label ← if dots.isEmpty then pure name else node .restPattern (dots ++ [name])
    let question ← maybe (mark "?")
    let typing ← typeMark none
    node (if question.isEmpty then .requiredParameter else .optionalParameter)
      (label :: question ++ [typing]))
  <|> (do
    let dots ← mark "..."
    let type ← goal (.type none)
    node .restType [dots, type])
  <|> (do
    let type ← goal (.type none)
    (do
      let question ← mark "?"
      node .optionalType [type, question]) <|> pure type)

def tupleType : Parser Node := do
  let opening ← mark "["
  let items ← maybeAll (commaTrailed tupleMember)
  let closing ← mark "]"
  node .tupleType (opening :: items ++ [closing])

def signedNumber : Parser Node := do
  let sign ← mark "-" <|> mark "+"
  let number ← numberLiteral
  node .unaryExpression [sign, number]

def templateLiteralType : Parser Node :=
  template .templateLiteralType do
    let opening ← mark "$\x7b"
    let type ← goal (.type none)
    let closing ← mark "\x7d"
    node .templateType [opening, type, closing]

def wordType (ending : Ending) : Parser Node := do
  let w ← nextWord
  if predefinedTypes.contains w then word .predefinedType
  else if w == "this" then word .thisType
  else if w == "true" then do node .literalType [← word .trueWord]
  else if w == "false" then do node .literalType [← word .falseWord]
  else if w == "null" then do node .literalType [← word .nullWord]
  else if w == "undefined" then do node .literalType [← word .undefinedWord]
  else if w == "const" then keyword "const"
  else if w == "typeof" then typeQuery ending
  else if w == "infer" then inferType
  else if w == "unique" then
    (do
      let unique ← keyword "unique"
      let symbol ← keyword "symbol"
      node .predefinedType [unique, symbol]) <|> namedType ending
  else namedType ending

def primaryType (ending : Ending) : Parser Node := do
  let (b, next) ← nextBytes
  if b == 40 then do
    let opening ← mark "("
    let type ← goal (.type none)
    let closing ← mark ")"
    node .parenthesizedType [opening, type, closing]
  else if b == 123 then goal .objectType
  else if b == 91 then tupleType
  else if b == 34 || b == 39 then do node .literalType [← stringLiteral]
  else if Lexeme.isDigit b || (b == 46 && Lexeme.isDigit next) then do
    node .literalType [← numberLiteral]
  else if b == 45 || b == 43 then do node .literalType [← signedNumber]
  else if b == 96 then templateLiteralType
  else if b == 42 then do return (← mark "*").asKind .existentialType
  else if b == 63 then do
    let question ← mark "?"
    let type ← goal (.operandType ending)
    node .maybeType [question, type]
  else wordType ending

def indexedType (ending : Ending) : Parser Node := do
  let base ← primaryType ending
  grow (fun n => do
    ensure !(← stopsAt ending)
    let opening ← mark "["
    (do
      let closing ← mark "]"
      node .arrayType [n, opening, closing])
    <|> (do
      let index ← goal (.type none)
      let closing ← mark "]"
      node .lookupType [n, opening, index, closing])) base

def operandTypeRule (ending : Ending) : Parser Node := do
  let b ← nextByte
  if b == 40 then functionType ending <|> indexedType ending
  else if b == 60 then functionType ending
  else
    let w ← nextWord
    if w == "readonly" then do
      let readonly ← keyword "readonly"
      let type ← goal (.operandType ending)
      node .readonlyType [readonly, type]
    else if w == "keyof" then do
      let keyof ← keyword "keyof"
      let type ← goal (.operandType ending)
      node .indexTypeQuery [keyof, type]
    else if w == "import" then do memberChain ending (← importedModule)
    else if w == "new" then constructorType ending
    else if w == "abstract" then constructorType ending <|> indexedType ending
    else indexedType ending

def memberModifiers : List String :=
  ["public", "private", "protected", "static", "override", "readonly", "async", "get", "set"]

def indexSignature (ending : Ending) : Parser Node := do
  let before ← maybeAll do
    let sign ← maybe (mark "-" <|> mark "+")
    let readonly ← keyword "readonly"
    return sign ++ [readonly]
  let opening ← mark "["
  let name ← word .identifier
  let clause ← (do
      let colon ← mark ":"
      let type ← goal (.type none)
      return [name, colon, type])
    <|> (do
      let within ← keyword "in"
      let type ← goal (.type none)
      let rename ← maybeAll do
        let as ← keyword "as"
        let type ← goal (.type none)
        return [as, type]
      return [← node .mappedTypeClause ([name.asKind .typeIdentifier, within, type] ++ rename)])
  let closing ← mark "]"
  let typing ← typeMark ending <|> (do
      let sign ← mark "-?:" <|> mark "+?:" <|> mark "?:"
      let type ← goal (.type ending)
      node .typeMark [sign, type])
  node .indexSignature (before ++ [opening] ++ clause ++ [closing, typing])

def typeMember : Parser Node := do
  let ending : Ending := some afterClause
  let b ← nextByte
  if b == 40 || b == 60 then do node .callSignature (← signature ending)
  else
    (do
      let abstract ← maybe (keyword "abstract")
      let new ← keyword "new"
      let types ← maybe (goal .typeParameters)
      let parameters ← goal .parameters
      let result ← maybe (typeMark ending)
      node .constructSignature (abstract ++ [new] ++ types ++ [parameters] ++ result))
    <|> indexSignature ending
    <|> (do
      let before ← modifiers ending memberModifiers
      let name ← propertyName
      let question ← maybe (mark "?")
      let b ← nextByte
      if (b == 40 || b == 60) && !(← stopsAt ending) then
        let rest ← signature ending
        node .methodSignature (before ++ [name.asRole .name] ++ question ++ rest)
      else
        let typing ← maybe (typeMark ending)
        node .propertySignature (before ++ [name.asRole .name] ++ question ++ typing))

def objectTypeRule : Parser Node := do
  let opening ← mark "\x7b"
  let leading ← maybe (mark "," <|> mark ";")
  let members ← many do
    let member ← typeMember
    let separator ← (do return [← mark ","]) <|> semicolon afterClause <|> (do
      ensure ((← nextByte) == 125)
      return [])
    return member :: separator
  let closing ← mark "\x7d"
  node .objectType (opening :: leading ++ members ++ [closing])

end ModuleAtlas.Grammar
