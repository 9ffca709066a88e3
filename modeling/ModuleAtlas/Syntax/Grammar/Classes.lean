import ModuleAtlas.Syntax.Grammar.Functions

/-!
# Classes
-/

namespace ModuleAtlas.Grammar

set_option autoImplicit false

open ModuleAtlas.Parser

/-- A block that runs once when the class is made. -/
def classStaticBlock : Parser Node := do
  let static ← keyword "static"
  let body ← goal (.block afterClause)
  node .classStaticBlock [static, body]

def plainClassModifiers : List String := ["static", "async", "get", "set"]

def typedClassModifiers : List String :=
  ["public", "private", "protected", "static", "override", "readonly", "async", "get", "set",
    "abstract", "declare", "accessor"]

def plainMember : Parser (List Node) := do
  let marks ← decorators
  let before ← modifiers (some afterClause) plainClassModifiers
  let name ← propertyName
  if (← nextByte) == 40 then
    let parameters ← goal .parameters
    let body ← goal (.block afterClause)
    let method ← node .methodDefinition (marks ++ before ++ [name.asRole .name, parameters, body])
    let ending ← maybe (mark ";")
    return method :: ending
  else
    let value ← maybeAll (initializer .outer)
    let field ← node .fieldDefinition (marks ++ before ++ [name] ++ value)
    let ending ← semicolon ⟨!value.isEmpty, false⟩
    return field :: ending

def typedMember : Parser (List Node) := do
  let marks ← decorators
  let ending : Ending := some afterClause
  (do
    let index ← indexSignature ending
    let separator ← (do return [← mark ","]) <|> semicolon afterClause
    return marks ++ index :: separator)
  <|> (do
    let before ← modifiers ending typedClassModifiers
    let name ← propertyName
    let question ← maybe (mark "?" <|> (do
      let (_, next) ← nextBytes
      ensure (next != 61)
      mark "!"))
    let b ← nextByte
    if b == 40 || b == 60 then
      let closed : Semicolon.Place := ⟨false, true⟩
      let rest ← signature (some closed)
      let front := marks ++ before ++ [name.asRole .name] ++ question ++ rest
      if (← nextByte) == 123 then
        let body ← goal (.block afterClause)
        let method ← node .methodDefinition (front ++ [body])
        let separator ← maybeAll (semicolon afterClause)
        return method :: separator
      else
        let abstract := before.any (·.text == "abstract")
        let method ← node (if abstract then .abstractMethodSignature else .methodSignature) front
        let separator ← (do return [← mark ","]) <|> semicolon closed
        return method :: separator
    else
      let typing ← maybe (typeMark ending)
      let value ← maybeAll (initializer .outer)
      let field ← node .fieldDefinition (marks ++ before ++ [name] ++ question ++ typing ++ value)
      let separator ← (do return [← mark ","]) <|> semicolon ⟨!value.isEmpty, false⟩
      return field :: separator)

def classBody : Parser Node := do
  let opening ← mark "\x7b"
  let member := if ← typed then typedMember else plainMember
  let members ← many ((do return [← mark ";"]) <|> (do return [← classStaticBlock]) <|> member)
  let closing ← mark "\x7d"
  node .classBody (opening :: members ++ [closing])

def extendedClass : Parser (List Node) := do
  let value ← goal (.expression .inner)
  let types ← maybe (goal .typeArguments)
  return value :: types

def extendsClause : Parser Node := do
  let head ← keyword "extends"
  let first ← extendedClass
  let rest ← many do
    let comma ← mark ","
    let next ← extendedClass
    return comma :: next
  node .extendsClause (head :: first ++ rest)

def implementsClause : Parser Node := do
  let head ← keyword "implements"
  let items ← commaSeparated (goal (.type none))
  node .implementsClause (head :: items)

def classHeritage : Parser Node := do
  if ← typed then
    let extended ← maybe extendsClause
    let implemented ← maybe implementsClause
    ensure !(extended ++ implemented).isEmpty
    node .classHeritage (extended ++ implemented)
  else
    let head ← keyword "extends"
    let value ← goal (.expression .inner)
    node .classHeritage [head, value]

def className : Parser Node := do
  if ← typed then wordWhere .typeIdentifier fun w => w != "extends" && w != "implements"
  else wordWhere .identifier (· != "extends")

def classRest : Parser (List Node) := do
  let types ← if ← typed then maybe (goal .typeParameters) else pure []
  let heritage ← maybe classHeritage
  let body ← classBody
  return types ++ heritage ++ [body]

def classExpression : Parser Node := do
  let marks ← decorators
  let word ← keyword "class"
  let name ← maybe className
  let rest ← classRest
  node .classExpression (marks ++ [word] ++ name.map (·.asRole .name) ++ rest)

def classDeclaration (place : Semicolon.Place) : Parser Node := do
  let marks ← decorators
  let abstract ← if ← typed then maybe (keyword "abstract") else pure []
  let word ← keyword "class"
  let name ← className
  let rest ← classRest
  if abstract.isEmpty then settle place
  node (if abstract.isEmpty then .classDeclaration else .abstractClassDeclaration)
    (marks ++ abstract ++ [word, name.asRole .name] ++ rest)

end ModuleAtlas.Grammar
