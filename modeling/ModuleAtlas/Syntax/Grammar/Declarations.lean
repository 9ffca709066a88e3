import ModuleAtlas.Syntax.Grammar.Expressions

/-!
# Declarations, imports and exports
-/

namespace ModuleAtlas.Grammar

set_option autoImplicit false

open ModuleAtlas.Parser

def declarator : Parser Node := do
  let name ← destructuring <|> word .identifier
  let typing ← if ← typed then
      maybeAll do
        let sure ← maybe (mark "!")
        let typing ← typeMark (some afterClause)
        return sure ++ [typing]
    else pure []
  let value ← maybeAll (initializer .outer)
  node .variableDeclarator (name.asRole .name :: typing ++ value)

def declarators : Parser (List Node) := do
  let items ← commaSeparated declarator
  let hasValue := match items.getLast? with
    | some last => (last.child? .value).isSome
    | none => false
  let ending ← semicolon ⟨hasValue, false⟩
  return items ++ ending

def variableDeclaration : Parser Node := do
  let var ← keyword "var"
  node .variableDeclaration (var :: (← declarators))

def lexicalDeclaration : Parser Node := do
  let word ← keywordOf ["let", "const"]
  node .lexicalDeclaration (word :: (← declarators))

def enumMember : Parser Node := do
  let name ← propertyName
  (do
    let value ← initializer .inner
    node .enumAssignment (name :: value)) <|> pure name

def enumDeclaration : Parser Node := do
  let const ← maybe (keyword "const")
  let enum ← keyword "enum"
  let name ← word .identifier
  let opening ← mark "\x7b"
  let members ← maybeAll (commaTrailed enumMember)
  let closing ← mark "\x7d"
  let body ← node .enumBody (opening :: members ++ [closing])
  node .enumDeclaration (const ++ [enum, name.asRole .name, body])

def typeAlias : Parser Node := do
  let type ← keyword "type"
  let name ← word .typeIdentifier
  let types ← maybe (goal .typeParameters)
  let sign ← equals
  let value ← goal (.type (some afterClause))
  let ending ← semicolon afterClause
  node .typeAliasDeclaration ([type, name.asRole .name] ++ types ++ [sign, value.asRole .value] ++ ending)

def extendsTypeClause : Parser Node := do
  let head ← keyword "extends"
  let items ← commaSeparated (namedType none)
  node .extendsTypeClause (head :: items)

def interfaceDeclaration : Parser Node := do
  let head ← keyword "interface"
  let name ← word .typeIdentifier
  let types ← maybe (goal .typeParameters)
  let parents ← maybe extendsTypeClause
  let body ← goal .objectType
  node .interfaceDeclaration ([head, name.asRole .name] ++ types ++ parents ++ [body.asKind .interfaceBody])

def dottedName : Parser Node := do
  let base ← word .identifier
  grow (fun n => do
    let dot ← mark "."
    let name ← word .propertyIdentifier
    node .nestedIdentifier [n, dot, name]) base

def moduleDeclaration : Parser Node := do
  let head ← keywordOf ["module", "namespace"]
  let name ← stringLiteral <|> dottedName
  let body ← if (← nextByte) == 123 then do pure [← goal (.block afterClause)] else pure []
  node (if head.text == "module" then .moduleDeclaration else .internalModule)
    ([head, name.asRole .name] ++ body)

def importAlias : Parser Node := do
  let head ← keyword "import"
  let name ← word .identifier
  let sign ← equals
  let value ← dottedName
  let ending ← semicolon afterClause
  node .importAlias ([head, name, sign, value] ++ ending)

def plainDeclaration (place : Semicolon.Place) : Parser Node := do
  let w ← nextWord
  if w == "function" || w == "async" then functionDeclaration place
  else if w == "class" then classDeclaration place
  else if w == "var" then variableDeclaration
  else if w == "let" then lexicalDeclaration
  else if w == "const" then
    if ← typed then enumDeclaration <|> lexicalDeclaration else lexicalDeclaration
  else if ← typed then
    match w with
    | "abstract" => classDeclaration place
    | "type" => typeAlias
    | "interface" => interfaceDeclaration
    | "enum" => enumDeclaration
    | "module" | "namespace" => moduleDeclaration
    | "import" => importAlias
    | _ => fail
  else fail

/-- A declaration of what exists elsewhere. -/
def ambientDeclaration : Parser Node := do
  let declare ← keyword "declare"
  (do
    let global ← keyword "global"
    let body ← goal (.block afterClause)
    node .ambientDeclaration [declare, global, body])
  <|> (do
    let module ← keyword "module"
    let dot ← mark "."
    let name ← word .propertyIdentifier
    let typing ← typeMark (some afterClause)
    let ending ← semicolon afterClause
    node .ambientDeclaration ([declare, module, dot, name, typing] ++ ending))
  <|> (do
    let declaration ← plainDeclaration afterClause
    node .ambientDeclaration [declare, declaration])

def declaration (place : Semicolon.Place) : Parser Node := do
  if (← nextByte) == 64 then classDeclaration place
  else if (← nextWord) == "declare" && (← typed) then ambientDeclaration
  else plainDeclaration place

def fromClause : Parser (List Node) := do
  let head ← keyword "from"
  let source ← stringLiteral
  return [head, source.asRole .source]

def clauseName : Parser Node := stringLiteral <|> word .identifier

def newName (name : Parser Node) : Parser (List Node) := do
  let as ← keyword "as"
  let bound ← name
  return [as, bound.asRole .alias]

def importSpecifier : Parser Node := do
  let closed : Parser Unit := do
    let b ← nextByte
    ensure (b == 44 || b == 125)
  let plain (before : List Node) : Parser Node :=
    (do
      let name ← clauseName
      let rename ← newName (word .identifier)
      closed
      node .importSpecifier (before ++ [name.asRole .name] ++ rename))
    <|> (do
      let name ← word .identifier
      closed
      node .importSpecifier (before ++ [name.asRole .name]))
  if ← typed then
    (do
      let only ← keywordOf ["type", "typeof"]
      plain [only]) <|> plain []
  else plain []

def namedImports : Parser Node := do
  let opening ← mark "\x7b"
  let items ← maybeAll (commaTrailed importSpecifier)
  let closing ← mark "\x7d"
  node .namedImports (opening :: items ++ [closing])

def namespaceImport : Parser Node := do
  let star ← mark "*"
  let as ← keyword "as"
  let name ← word .identifier
  node .namespaceImport [star, as, name]

def importClause : Parser Node :=
  (do node .importClause [← namespaceImport <|> namedImports])
  <|> (do
    let name ← word .identifier
    let rest ← maybeAll do
      let comma ← mark ","
      let more ← namespaceImport <|> namedImports
      return [comma, more]
    node .importClause (name :: rest))

def importRequireClause : Parser Node := do
  let name ← word .identifier
  let sign ← equals
  let require ← keyword "require"
  let opening ← mark "("
  let source ← stringLiteral
  let closing ← mark ")"
  node .importRequireClause [name, sign, require, opening, source, closing]

def importAttribute : Parser Node := do
  let head ← keyword "with"
  let value ← objectLiteral
  node .importAttribute [head, value]

def importBody : Parser (List Node) :=
  (do
    let source ← stringLiteral
    return [source.asRole .source])
  <|> (do
    let clause ← importClause
    let source ← fromClause
    return clause :: source)
  <|> (do
    ensure (← typed)
    return [← importRequireClause])

def importStatement : Parser Node := do
  let head ← keyword "import"
  let finish (before : List Node) : Parser Node := do
    let body ← importBody
    let facts ← if ← endsHere afterClause then pure [] else maybe importAttribute
    let ending ← semicolon afterClause
    node .importStatement (head :: before ++ body ++ facts ++ ending)
  if ← typed then
    (do
      let only ← keywordOf ["type", "typeof"]
      finish [only]) <|> finish []
  else finish []

def exportSpecifier : Parser Node := do
  let only ← if ← typed then maybe (keywordOf ["type", "typeof"]) else pure []
  let name ← clauseName
  let rename ← maybeAll (newName clauseName)
  node .exportSpecifier (only ++ [name.asRole .name] ++ rename)

def exportClause : Parser Node := do
  let opening ← mark "\x7b"
  let items ← maybeAll (commaTrailed exportSpecifier)
  let closing ← mark "\x7d"
  node .exportClause (opening :: items ++ [closing])

/-- Everything of another module, perhaps under a name. -/
def starExport : Parser (List Node) := do
  let star ← mark "*"
  let target ← (do
      let as ← keyword "as"
      let name ← clauseName
      node .namespaceExport [star, as, name]) <|> pure star
  let source ← fromClause
  let ending ← semicolon afterClause
  return target :: source ++ ending

def clauseExport : Parser (List Node) := do
  let only ← if ← typed then maybe (keyword "type") else pure []
  let clause ← exportClause
  let source ← maybeAll fromClause
  let ending ← semicolon afterClause
  return only ++ clause :: source ++ ending

def defaultExport : Parser (List Node) := do
  let default ← keyword "default"
  (do
    let declared ← declaration afterExpression
    return [default, declared.asRole .declaration])
  <|> (do
    let value ← goal (.expression .outer)
    let ending ← semicolon afterExpression
    return [default, value.asRole .value] ++ ending)

def typedExport : Parser (List Node) := do
  ensure (← typed)
  (do
    let sign ← equals
    let value ← goal (.expression .outer)
    let ending ← semicolon afterExpression
    return [sign, value] ++ ending)
  <|> (do
    let as ← keyword "as"
    let namespaceWord ← keyword "namespace"
    let name ← word .identifier
    let ending ← semicolon afterClause
    return [as, namespaceWord, name] ++ ending)

def exportStatement : Parser Node := do
  let marks ← decorators
  let head ← keyword "export"
  let body ← starExport <|> clauseExport <|> defaultExport <|> typedExport <|> (do
    let declared ← declaration afterClause
    return [declared.asRole .declaration])
  node .exportStatement (marks ++ [head] ++ body)

end ModuleAtlas.Grammar
