import ModuleAtlas.Syntax.Grammar.Types

/-!
# Markup elements inside expressions
-/

namespace ModuleAtlas.Grammar

set_option autoImplicit false

open ModuleAtlas.Parser

def markupWord (kind : Kind) : Parser Node :=
  lexeme kind fun s i =>
    let j := Lexeme.markupWordEnd s i
    if i < j then some j else none

def namespacedName : Parser Node := do
  let space ← markupWord .identifier
  let colon ← mark ":"
  let name ← markupWord .identifier
  node .jsxNamespaceName [space, colon, name]

def elementName : Parser Node :=
  namespacedName <|> (do
    let base ← markupWord .identifier
    grow (fun n => do
      let dot ← mark "."
      let name ← word .propertyIdentifier
      node .memberExpression [n, dot, name]) base)

/-- An expression in braces, which may be missing. -/
def markupExpression : Parser Node := do
  let opening ← mark "\x7b"
  let value ← maybe (spread <|> sequence .inner)
  let closing ← mark "\x7d"
  node .jsxExpression (opening :: value ++ [closing])

def attributeValue : Parser Node := do
  let b ← nextByte
  if b == 34 || b == 39 then lexeme .string Lexeme.attributeTextEnd?
  else if b == 123 then markupExpression
  else if b == 60 then goal .element
  else fail

def elementAttribute : Parser Node := do
  if (← nextByte) == 123 then markupExpression
  else
    let name ← namespacedName <|> markupWord .propertyIdentifier
    let value ← maybeAll do
      let sign ← mark "="
      let value ← attributeValue
      return [sign, value]
    node .jsxAttribute (name :: value)

def tagHead : Parser (List Node) := do
  let opening ← mark "<"
  if (← nextByte) == 62 then return [opening]
  else
    let name ← elementName
    let types ← if ← typed then maybe (goal .typeArguments) else pure []
    let attributes ← many do return [← elementAttribute]
    return [opening, name] ++ types ++ attributes

def closingTag : Parser Node := do
  let opening ← mark "</"
  let name ← maybe elementName
  let closing ← mark ">"
  node .jsxClosingElement (opening :: name ++ [closing])

def markupText : Parser (List Node) := fun site i =>
  match Lexeme.markupTextEnd? site.source i with
  | some j => some ([.leaf .jsxText none i (site.source.slice i j)], j)
  | none => none

def markupChild : Parser (List Node) :=
  markupText <|> (do
    skipWide
    let (b, next) ← nextBytes
    if b == 60 && next != 47 then return [← goal .element]
    else if b == 123 then return [← markupExpression]
    else if b == 38 then return [← lexeme .htmlCharacterReference Lexeme.referenceEnd?]
    else fail)

def elementRule : Parser Node := do
  let head ← tagHead
  if ← looking "/>" then
    ensure (1 < head.length)
    let closing ← mark "/>"
    node .jsxSelfClosingElement (head ++ [closing])
  else
    let closing ← mark ">"
    let opening ← node .jsxOpeningElement (head ++ [closing])
    let children ← many markupChild
    skipWide
    let ending ← closingTag
    node .jsxElement (opening :: children ++ [ending])

end ModuleAtlas.Grammar
