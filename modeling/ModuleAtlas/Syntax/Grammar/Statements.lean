import ModuleAtlas.Syntax.Grammar.Declarations

/-!
# Statements
-/

namespace ModuleAtlas.Grammar

set_option autoImplicit false

open ModuleAtlas.Parser

def statement : Parser Node := goal .statement

/-- Statements in braces; a semicolon inserted after them belongs to the block. -/
def blockRule (place : Semicolon.Place) : Parser Node := do
  let opening ← mark "\x7b"
  let body ← many do return [← statement]
  skipWide
  let closing ← mark "\x7d"
  settle place
  node .statementBlock (opening :: body ++ [closing])

def expressionStatement : Parser Node := do
  let value ← sequence .outer
  let ending ← semicolon afterExpression
  node .expressionStatement (value :: ending)

/-- A block, or an object where a block cannot be read. -/
def blockStatement : Parser Node :=
  goal (.block afterClause) <|> (do
    ensure (← opensPairs)
    expressionStatement)

def emptyStatement : Parser Node := do return (← mark ";").asKind .emptyStatement

def elseClause : Parser Node := do
  let head ← keyword "else"
  let body ← statement
  node .elseClause [head, body]

def ifStatement : Parser Node := do
  let head ← keyword "if"
  let condition ← parenthesized
  let body ← statement
  let other ← maybe elseClause
  node .ifStatement ([head, condition, body] ++ other)

def whileStatement : Parser Node := do
  let head ← keyword "while"
  let condition ← parenthesized
  let body ← statement
  node .whileStatement [head, condition, body]

def withStatement : Parser Node := do
  let head ← keyword "with"
  let value ← parenthesized
  let body ← statement
  node .withStatement [head, value, body]

def doStatement : Parser Node := do
  let head ← keyword "do"
  let body ← statement
  let word ← keyword "while"
  let condition ← parenthesized
  let ending ← maybeAll (semicolon afterClause)
  node .doStatement ([head, body, word, condition] ++ ending)

def loopTarget : Parser (List Node) :=
  (do
    let var ← keyword "var"
    let name ← destructuring <|> word .identifier
    let value ← maybeAll (initializer .inner)
    return [var, name] ++ value)
  <|> (do
    let word ← keywordOf ["let", "const"]
    let name ← destructuring <|> Parser.word .identifier
    return [word, name])
  <|> (do
    let b ← nextByte
    if b == 123 || b == 91 then return [← destructuring]
    else
      let base ← primary .inner
      let target ← grow (postfixStep .inner) base
      ensure (isTarget target.kind)
      return [target])

def forInStatement : Parser Node := do
  let head ← keyword "for"
  let await ← maybe (keyword "await")
  let opening ← mark "("
  let target ← loopTarget
  let word ← keywordOf ["in", "of"]
  let value ← sequence .inner
  let closing ← mark ")"
  let body ← statement
  node .forInStatement ([head] ++ await ++ [opening] ++ target ++ [word, value, closing, body])

def forStatement : Parser Node := do
  let head ← keyword "for"
  let opening ← mark "("
  let start ← (do return [← emptyStatement]) <|> (do return [← variableDeclaration])
    <|> (do return [← lexicalDeclaration]) <|> (do return [← sequence .inner, ← mark ";"])
  let condition ← (do return [← emptyStatement]) <|> (do return [← sequence .inner, ← mark ";"])
  let step ← maybe (sequence .inner)
  let closing ← mark ")"
  let body ← statement
  node .forStatement ([head, opening] ++ start ++ condition ++ step ++ [closing, body])

def caseBody : Parser (List Node) := many do
  let w ← nextWord
  ensure (w != "case" && w != "default")
  return [← statement]

def switchCase : Parser Node :=
  (do
    let head ← keyword "case"
    let value ← sequence .inner
    let colon ← mark ":"
    node .switchCase ([head, value, colon] ++ (← caseBody)))
  <|> (do
    let head ← keyword "default"
    let colon ← mark ":"
    node .switchDefault ([head, colon] ++ (← caseBody)))

def switchStatement : Parser Node := do
  let head ← keyword "switch"
  let value ← parenthesized
  let opening ← mark "\x7b"
  let cases ← many do return [← switchCase]
  skipWide
  let closing ← mark "\x7d"
  let body ← node .switchBody (opening :: cases ++ [closing])
  node .switchStatement [head, value, body]

def catchClause : Parser Node := do
  let head ← keyword "catch"
  let parameter ← maybeAll do
    let opening ← mark "("
    let name ← destructuring <|> word .identifier
    let typing ← optionalMark none
    let closing ← mark ")"
    return [opening, name] ++ typing ++ [closing]
  let body ← goal (.block afterClause)
  node .catchClause ([head] ++ parameter ++ [body])

def finallyClause : Parser Node := do
  let head ← keyword "finally"
  let body ← goal (.block afterClause)
  node .finallyClause [head, body]

def tryStatement : Parser Node := do
  let head ← keyword "try"
  let body ← goal (.block afterClause)
  let handler ← maybe catchClause
  let last ← maybe finallyClause
  node .tryStatement ([head, body] ++ handler ++ last)

def jumpStatement (text : String) (kind : Kind) : Parser Node := do
  let head ← keyword text
  if ← endsHere afterClause then
    settle afterClause
    node kind [head]
  else
    let label ← maybe (word .statementIdentifier)
    let ending ← semicolon afterClause
    node kind (head :: label ++ ending)

def returnStatement : Parser Node := do
  let head ← keyword "return"
  (do
    let ending ← semicolon afterClause
    node .returnStatement (head :: ending))
  <|> (do
    let value ← sequence .outer
    let ending ← semicolon afterExpression
    node .returnStatement ([head, value] ++ ending))

def throwStatement : Parser Node := do
  let head ← keyword "throw"
  let value ← sequence .outer
  let ending ← semicolon afterExpression
  node .throwStatement ([head, value] ++ ending)

def debuggerStatement : Parser Node := do
  let head ← keyword "debugger"
  let ending ← semicolon afterClause
  node .debuggerStatement (head :: ending)

def labeledStatement : Parser Node := do
  let label ← word .statementIdentifier
  let colon ← mark ":"
  let body ← statement
  node .labeledStatement [label, colon, body]

def opensLabel : Parser Bool := fun site i =>
  let s := site.source
  let k := Lexeme.wordEnd s (Lexeme.skipTrivia s i)
  some (s.byte (Lexeme.skipTrivia s k) == 58, i)

def endsAfterWord : Parser Bool := ahead do
  let _ ← word .symbol
  endsHere afterExpression

def namelessAfter (words : List String) : Parser Bool := ahead do
  let _ ← many do return [← keywordOf words]
  let _ ← maybe (mark "*")
  let w ← nextWord
  return w == "" || w == "extends"

/-- A function or class at the start of a statement; without a name it is an expression. -/
def namedOrExpression (words : List String) : Parser Node := do
  if ← namelessAfter words then expressionStatement else declaration afterExpression

def nameStatement : Parser Node := do
  if ← opensLabel then labeledStatement else expressionStatement

/-- A statement that starts with a word which may also be a name. -/
def softStatement (p : Parser Node) : Parser Node := do
  if ← opensLabel then labeledStatement
  else if ← endsAfterWord then expressionStatement
  else p <|> expressionStatement

def opensAsyncFunction : Parser Bool := ahead do
  let _ ← word .symbol
  return (← nextWord) == "function"

/-- An export, or a statement that starts with `export` as a name; a star after it is never a
multiplication. -/
def exportOrExpression : Parser Node := do
  let b ← ahead do
    let _ ← keyword "export"
    nextByte
  if b == 42 then exportStatement else softStatement exportStatement

def importOrExpression : Parser Node := do
  let b ← ahead do
    let _ ← keyword "import"
    nextByte
  if b == 40 || b == 46 then expressionStatement
  else if ← typed then importStatement <|> importAlias
  else importStatement

def wordStatement (w : String) : Parser Node := do
  match w with
  | "if" => ifStatement
  | "for" => forInStatement <|> forStatement
  | "while" => whileStatement
  | "do" => doStatement
  | "switch" => switchStatement
  | "try" => tryStatement
  | "with" => withStatement
  | "return" => returnStatement
  | "throw" => throwStatement
  | "break" => jumpStatement "break" .breakStatement
  | "continue" => jumpStatement "continue" .continueStatement
  | "debugger" => debuggerStatement
  | "var" => variableDeclaration
  | "const" => declaration afterExpression
  | "let" => softStatement lexicalDeclaration
  | "function" => namedOrExpression ["function"]
  | "class" => namedOrExpression ["class"]
  | "async" =>
    if (← opensLabel) || (← endsAfterWord) || !(← opensAsyncFunction) then nameStatement
    else namedOrExpression ["async", "function"]
  | "import" => importOrExpression
  | "export" => exportOrExpression
  | _ =>
    if ← typed then
      match w with
      | "abstract" | "interface" | "enum" => declaration afterExpression
      | "type" | "declare" | "module" | "namespace" => softStatement (declaration afterExpression)
      | _ => wordOrExpression
    else wordOrExpression
where
  wordOrExpression : Parser Node := do
    if operandKeywords.contains w then expressionStatement else nameStatement

def statementRule : Parser Node := do
  skipWide
  let b ← nextByte
  if b == 123 then blockStatement
  else if b == 59 then emptyStatement
  else if b == 64 then exportStatement <|> declaration afterExpression <|> expressionStatement
  else
    let w ← nextWord
    if w == "" then expressionStatement else wordStatement w

def hashBangLine : Parser Node :=
  lexeme .hashBangLine fun s i => if s.startsWith i "#!" then some (Lexeme.lineEnd s i) else none

def programRule : Parser Node := do
  let first ← maybe hashBangLine
  let body ← many do return [← statement]
  skipWide
  ensure (← atEnd)
  let stop ← position
  return .branch .program none 0 stop (first ++ body)

end ModuleAtlas.Grammar
