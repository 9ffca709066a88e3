/-!
# Kinds of syntax nodes

`Kind` names what a node of the syntax tree is, `Role` the part it plays in its parent.
Keywords, operators and punctuation share the kind `symbol` and are told apart by text.
-/

namespace ModuleAtlas

set_option autoImplicit false

inductive Kind where
  | symbol
  | program | hashBangLine | comment | htmlComment
  -- modules
  | exportStatement | namespaceExport | exportClause | exportSpecifier
  | importStatement | importClause | namespaceImport | namedImports | importSpecifier
  | importAttribute | importRequireClause | importAlias | importKeyword
  -- statements
  | statementBlock | expressionStatement | variableDeclaration | lexicalDeclaration
  | variableDeclarator | ifStatement | elseClause | switchStatement | switchBody | switchCase
  | switchDefault | forStatement | forInStatement | whileStatement | doStatement
  | tryStatement | catchClause | finallyClause | withStatement | breakStatement
  | continueStatement | debuggerStatement | returnStatement | throwStatement
  | emptyStatement | labeledStatement | statementIdentifier
  -- expressions
  | parenthesizedExpression | sequenceExpression | yieldExpression | awaitExpression
  | unaryExpression | binaryExpression | ternaryExpression | updateExpression
  | newExpression | callExpression | memberExpression | subscriptExpression
  | assignmentExpression | augmentedAssignmentExpression | spreadElement | asExpression
  | satisfiesExpression | nonNullExpression | instantiationExpression | typeAssertion
  | metaProperty | optionalChain | arguments
  -- names and literals
  | identifier | propertyIdentifier | privatePropertyIdentifier | typeIdentifier
  | shorthandPropertyIdentifier | shorthandPropertyIdentifierPattern
  | thisWord | superWord | nullWord | trueWord | falseWord | undefinedWord
  | number | string | regex | templateString | stringFragment | templateSubstitution
  -- objects, arrays and patterns
  | object | pair | methodDefinition | computedPropertyName | array
  | objectPattern | pairPattern | restPattern | objectAssignmentPattern | arrayPattern
  | assignmentPattern
  -- functions and classes
  | functionExpression | functionDeclaration | generatorFunction
  | generatorFunctionDeclaration | arrowFunction | functionSignature | formalParameters
  | requiredParameter | optionalParameter
  | classExpression | classDeclaration | abstractClassDeclaration | classHeritage
  | extendsClause | implementsClause | classBody | fieldDefinition | classStaticBlock
  | methodSignature | abstractMethodSignature | accessibilityModifier | overrideModifier
  | decorator
  -- markup
  | jsxElement | jsxOpeningElement | jsxClosingElement | jsxSelfClosingElement
  | jsxExpression | jsxText | jsxAttribute | jsxNamespaceName | htmlCharacterReference
  -- types
  | typeMark | typePredicateMark | assertsMark | typePredicate | asserts
  | typeArguments | typeParameters | typeParameter | constraint | defaultType
  | predefinedType | genericType | nestedTypeIdentifier | nestedIdentifier | objectType
  | interfaceBody | propertySignature | callSignature | constructSignature
  | indexSignature | mappedTypeClause | arrayType | tupleType | optionalType | restType
  | unionType | intersectionType | functionType | constructorType | conditionalType
  | inferType | readonlyType | lookupType | indexTypeQuery | typeQuery | literalType
  | templateLiteralType | templateType | parenthesizedType | thisType | existentialType
  | maybeType
  -- typed declarations
  | typeAliasDeclaration | interfaceDeclaration | extendsTypeClause | enumDeclaration
  | enumBody | enumAssignment | ambientDeclaration | moduleDeclaration | internalModule
  deriving DecidableEq, Repr, Inhabited

inductive Role where
  | name | alias | source | declaration | value | function | arguments | operator
  deriving DecidableEq, Repr, Inhabited

namespace Kind

def isName : Kind → Bool
  | .identifier | .typeIdentifier | .propertyIdentifier | .shorthandPropertyIdentifier
  | .shorthandPropertyIdentifierPattern => true
  | _ => false

def isMarkup : Kind → Bool
  | .jsxElement | .jsxSelfClosingElement => true
  | _ => false

def isClosure : Kind → Bool
  | .arrowFunction | .functionExpression | .generatorFunction => true
  | _ => false

/-- Parentheses and type assertions around an expression. -/
def isWrapper : Kind → Bool
  | .parenthesizedExpression | .asExpression | .satisfiesExpression | .nonNullExpression => true
  | _ => false

end Kind

end ModuleAtlas
