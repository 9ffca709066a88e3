import ModuleAtlas.Syntax.Grammar.Statements
import ModuleAtlas.Proofs.Syntax.Range

/-!
# The rules of the grammar go forward

Each rule gives nodes that lie in what it read. One search settles most rules; written out are
those that match on a word or a node, and those that cut their text out of the source themselves.
-/

namespace ModuleAtlas

set_option autoImplicit false
set_option synthInstance.maxSize 32768

open Node ModuleAtlas.Parser

namespace Grammar

section Names

instance (k : Kind) : (plainName k).Steady := inferInstanceAs (wordWhere _ _).Steady

instance (flow : Flow) : (sequence flow).Steady := by
  refine ⟨fun i => ?_⟩
  unfold sequence
  infer_instance

instance : spread.Steady := by
  refine ⟨fun i => ?_⟩
  unfold spread
  infer_instance

instance : stringLiteral.Steady := steady_lexeme fun _ _ _ => Lexeme.le_of_stringEnd?
instance : numberLiteral.Steady := steady_lexeme fun _ _ _ => Lexeme.le_of_numberEnd?
instance : regexLiteral.Steady := steady_lexeme fun _ _ _ => Lexeme.le_of_regexEnd?
instance : privateName.Steady := steady_lexeme fun s i j h => by grind

instance {hole : Parser Node} [hHole : ∀ j, hole.Reads j j] : (templatePiece hole).Steady := by
  refine ⟨fun i => ⟨fun site hSite ns j h => ?_⟩⟩
  simp only [templatePiece] at h
  split at h
  case isTrue hText =>
    cases h
    exact ⟨Nat.le_of_lt hText, .singleton (lies_leaf (Nat.le_refl i) (slice_fits (Nat.le_of_lt hText)))⟩
  split at h
  · split at h <;> cases h
    rename_i hEscape
    have hLe := Lexeme.le_of_escapeEnd? hEscape
    exact ⟨hLe, .singleton (lies_leaf (Nat.le_refl i) (slice_fits hLe))⟩
  split at h
  · split at h <;> cases h
    rename_i n hn
    exact ((hHole i).reads site hSite n j hn).imp_right AllLie.singleton
  · cases h

instance {k : Kind} {hole : Parser Node} [k.Narrow] [∀ j, hole.Reads j j] : (template k hole).Steady := by
  refine ⟨fun i => ?_⟩
  unfold template
  infer_instance

instance : templateString.Steady := by
  refine ⟨fun i => ?_⟩
  unfold templateString
  infer_instance

instance : propertyName.Steady := by
  refine ⟨fun i => ?_⟩
  unfold propertyName computedName
  infer_instance

instance (ending : Option Semicolon.Place) (words : List String) : (modifiers ending words).Steady := by
  refine ⟨fun i => ?_⟩
  unfold modifiers
  infer_instance

instance : parenthesized.Steady := by
  refine ⟨fun i => ?_⟩
  unfold parenthesized
  infer_instance

instance : argumentsRule.Steady := by
  refine ⟨fun i => ?_⟩
  unfold argumentsRule
  infer_instance

instance : decorators.Steady := by
  refine ⟨fun i => ?_⟩
  unfold decorators decorator decorator.decorated
  infer_instance

end Names

section Types

variable (ending : Ending)

instance : (unionType ending).Steady := by
  refine ⟨fun i => ?_⟩
  unfold unionType intersectionType typeChain typeOperator
  infer_instance

instance : (typeRule ending).Steady := by
  refine ⟨fun i => ?_⟩
  unfold typeRule
  infer_instance

instance : (typeMark ending).Steady := by
  refine ⟨fun i => ?_⟩
  unfold typeMark
  infer_instance

instance : (optionalMark ending).Steady := by
  refine ⟨fun i => ?_⟩
  unfold optionalMark
  infer_instance

instance : (typePredicate ending).Steady := by
  refine ⟨fun i => ?_⟩
  unfold typePredicate
  infer_instance

instance : (resultType ending).Steady := by
  refine ⟨fun i => ?_⟩
  unfold resultType assertsType
  infer_instance

instance : (resultMark ending).Steady := by
  refine ⟨fun i => .step fun colon => .step fun type => ?_⟩
  split <;> infer_instance

instance : (signature ending).Steady := by
  refine ⟨fun i => ?_⟩
  unfold signature
  infer_instance

instance : typeArgumentsRule.Steady := by
  refine ⟨fun i => ?_⟩
  unfold typeArgumentsRule
  infer_instance

instance : typeParametersRule.Steady := by
  refine ⟨fun i => ?_⟩
  unfold typeParametersRule typeParameter
  infer_instance

instance : importedModule.Steady := by
  refine ⟨fun i => ?_⟩
  unfold importedModule
  infer_instance

instance {base : Node} {lo a b i : Nat} [Between base a b] [Reaches lo a] [Reaches b i] :
    (memberChain ending base).Reads lo i := by
  unfold memberChain
  infer_instance

-- The same for what comes after the chain, which starts where the chain does.
instance {β : Type} [Ranged β] {base : Node} {f : Node → Parser β} {lo a b i : Nat} [Between base a b]
    [Reaches b i] [hf : ∀ r : Stretch a i Node, (f r.val).Reads lo r.stop] :
    (memberChain ending base >>= f).Reads lo i :=
  .bind (m := a) inferInstance hf

instance : (namedType ending).Steady := by
  refine ⟨fun i => .step fun first => ?_⟩
  refine .bind (m := i) (reads_grow ?_) fun name => inferInstance
  rintro j ⟨n, stop, -, hLies⟩
  obtain ⟨hPlaced, -, hChildren⟩ := formed_iff.mp hLies.formed
  cases n with
  | leaf k r s t =>
    have hOuter : Between (leaf .identifier r s t) i stop := ⟨formed_leaf, hLies.start, hLies.stop⟩
    infer_instance
  | branch k r s e cs =>
    have hOuter : Between (branch .nestedIdentifier r s e cs) i stop :=
      ⟨formed_iff.mpr ⟨hPlaced, .inl rfl, hChildren⟩, hLies.start, hLies.stop⟩
    infer_instance

instance : tupleType.Steady := by
  refine ⟨fun i => ?_⟩
  unfold tupleType tupleMember
  infer_instance

instance : (wordType ending).Steady := by
  refine ⟨fun i => ?_⟩
  unfold wordType typeQuery inferType
  infer_instance

instance : (indexedType ending).Steady := by
  refine ⟨fun i => ?_⟩
  unfold indexedType primaryType templateLiteralType signedNumber
  infer_instance

instance : (operandTypeRule ending).Steady := by
  refine ⟨fun i => ?_⟩
  unfold operandTypeRule functionType constructorType
  infer_instance

instance : (indexSignature ending).Steady := by
  refine ⟨fun i => .step fun before => .step fun opening => .step fun name => ?_⟩
  exact .bind (m := opening.stop) inferInstance fun clause => inferInstance

instance : objectTypeRule.Steady := by
  refine ⟨fun i => ?_⟩
  unfold objectTypeRule typeMember
  infer_instance

end Types

section Functions

variable (flow : Flow)

instance : assignable.Steady := by
  refine ⟨fun i => ?_⟩
  unfold assignable
  infer_instance

instance : (initializer flow).Steady := by
  refine ⟨fun i => ?_⟩
  unfold initializer
  infer_instance

instance {target : Parser Node} [∀ j, target.Reads j j] : (defaulted target).Steady := by
  refine ⟨fun i => ?_⟩
  unfold defaulted
  infer_instance

instance : restPattern.Steady := by
  refine ⟨fun i => ?_⟩
  unfold restPattern
  infer_instance

instance : objectPatternElement.Steady := by
  refine ⟨fun i => ?_⟩
  unfold objectPatternElement
  infer_instance

instance : destructuring.Steady := by
  refine ⟨fun i => ?_⟩
  unfold destructuring objectPattern arrayPattern
  infer_instance

instance : patternRule.Steady := by
  refine ⟨fun i => ?_⟩
  unfold patternRule
  infer_instance

instance : parametersRule.Steady := by
  refine ⟨fun i => ?_⟩
  unfold parametersRule plainParameter typedParameter parameterModifiers
  infer_instance

instance : (functionHead flow).Steady := by
  refine ⟨fun i => ?_⟩
  unfold functionHead
  infer_instance

instance : (functionExpression flow).Steady := by
  refine ⟨fun i => ?_⟩
  unfold functionExpression
  infer_instance

instance (place : Semicolon.Place) : (functionDeclaration place).Steady := by
  refine ⟨fun i => .step fun head => .begin (begins_word _) fun name hName => ?_⟩
  refine .step fun rest => .step fun b => ?_
  split
  · rw [← start_asRole _ .name] at hName
    exact .step fun body => .step fun settled => reads_stretched (by simp) hName
  · infer_instance

instance : opensPairs.Steady := steady_of_still fun site i a j h => by cases h; exact Nat.le_refl i

instance : mayBeParameters.Steady := by
  refine steady_of_still fun site i a j h => ?_
  unfold mayBeParameters at h
  grind

instance : (arrowBody flow).Steady := by
  refine ⟨fun i => ?_⟩
  unfold arrowBody
  infer_instance

instance : (arrowFunction flow).Steady := by
  refine ⟨fun i => ?_⟩
  unfold arrowFunction arrowHead
  infer_instance

instance : (bareArrowFunction flow).Steady := by
  refine ⟨fun i => ?_⟩
  unfold bareArrowFunction
  infer_instance

end Functions

section Classes

instance : plainMember.Steady := by
  refine ⟨fun i => ?_⟩
  unfold plainMember
  infer_instance

instance : typedMember.Steady := by
  refine ⟨fun i => ?_⟩
  unfold typedMember
  infer_instance

instance : classBody.Steady := by
  refine ⟨fun i => ?_⟩
  unfold classBody classStaticBlock
  infer_instance

instance : classRest.Steady := by
  refine ⟨fun i => ?_⟩
  unfold classRest classHeritage extendsClause implementsClause extendedClass
  infer_instance

instance : className.Steady := by
  refine ⟨fun i => ?_⟩
  unfold className
  infer_instance

instance : classExpression.Steady := by
  refine ⟨fun i => ?_⟩
  unfold classExpression
  infer_instance

theorem begins_className : className.Begins := by
  refine .after fun isTyped => ?_
  split <;> exact begins_wordWhere _ _

instance (place : Semicolon.Place) : (classDeclaration place).Steady := by
  refine ⟨fun i => .step fun marks => .step fun isTyped => .branch fun abstract => .step fun word => ?_⟩
  refine .begin begins_className fun name hName => .step fun rest => ?_
  rw [← start_asRole _ .name] at hName
  dsimp only
  split
  · exact .step fun settled => reads_stretched (by simp) hName
  · exact reads_stretched (by simp) hName

end Classes

section Markup

instance (k : Kind) : (markupWord k).Steady := steady_lexeme fun s i j h => by grind

instance : namespacedName.Steady := by
  refine ⟨fun i => ?_⟩
  unfold namespacedName
  infer_instance

instance : elementName.Steady := by
  refine ⟨fun i => ?_⟩
  unfold elementName
  infer_instance

instance : markupExpression.Steady := by
  refine ⟨fun i => ?_⟩
  unfold markupExpression
  infer_instance

instance : markupText.Steady := by
  refine ⟨fun i => ⟨fun site _ ns j h => ?_⟩⟩
  unfold markupText at h
  split at h <;> cases h
  rename_i hText
  have hLe := Lexeme.le_of_markupTextEnd? hText
  exact ⟨hLe, .singleton (lies_leaf (Nat.le_refl i) (slice_fits hLe))⟩

instance : (lexeme .string Lexeme.attributeTextEnd?).Steady :=
  steady_lexeme fun _ _ _ => Lexeme.le_of_attributeTextEnd?

instance : (lexeme .htmlCharacterReference Lexeme.referenceEnd?).Steady :=
  steady_lexeme fun _ _ _ => Lexeme.le_of_referenceEnd?

instance : elementAttribute.Steady := by
  refine ⟨fun i => ?_⟩
  unfold elementAttribute attributeValue
  infer_instance

instance : tagHead.Steady := by
  refine ⟨fun i => ?_⟩
  unfold tagHead
  infer_instance

instance : elementRule.Steady := by
  refine ⟨fun i => ?_⟩
  unfold elementRule closingTag markupChild
  infer_instance

end Markup

section Expressions

variable (flow : Flow) {n : Node} {middle : List Node} {lo hi a b i : Nat}

instance : objectElement.Steady := by
  refine ⟨fun i => ?_⟩
  unfold objectElement
  infer_instance

instance : objectLiteral.Steady := by
  refine ⟨fun i => ?_⟩
  unfold objectLiteral
  infer_instance

section Steps

variable [Between n a b] [Reaches lo a] [Run middle b hi] [Reaches b i] [Reaches hi i]

instance : (callOf n middle).Reads lo i := by
  unfold callOf
  infer_instance

instance : (subscriptStep n middle).Reads lo i := by
  unfold subscriptStep
  infer_instance

end Steps

instance : importExpression.Steady := by
  refine ⟨fun i => ?_⟩
  unfold importExpression importExpression.word'
  infer_instance

instance : (wordExpression flow).Steady := by
  refine ⟨fun i => .step fun w => ?_⟩
  split <;> infer_instance

instance : (primary flow).Steady := by
  refine ⟨fun i => ?_⟩
  unfold primary arrayLiteral
  infer_instance

section Steps

variable [Between n a b] [Reaches lo a] [Reaches b i]

instance : (memberStep n).Reads lo i := by
  unfold memberStep
  infer_instance

instance : (taggedStep n).Reads lo i := by
  unfold taggedStep
  infer_instance

instance : (postfixStep flow n).Reads lo i := by
  unfold postfixStep optionalStep instantiationStep
  infer_instance

instance : (constructorStep n).Reads lo i := by
  unfold constructorStep
  infer_instance

instance : (assigned flow n).Reads lo i := by
  refine .ite (.step fun b => .ite inferInstance (.orElse inferInstance (.orElse ?_ inferInstance))) inferInstance
  refine .step fun _ => .step fun _ => .step fun _ => .step fun s => .step fun i => ?_
  dsimp only
  split <;> infer_instance

instance : (ternaryStep flow n).Reads lo i := by
  unfold ternaryStep ternaryStep.branch
  infer_instance

instance : (assertionStep flow n).Reads lo i := by
  unfold assertionStep
  infer_instance

instance (level : Nat) : (binaryStep level flow n).Reads lo i := by
  refine .step fun _ => .step fun _ => .step fun s => .step fun i => ?_
  dsimp only
  split <;> infer_instance

end Steps

instance : (constructionRule flow).Steady := by
  refine ⟨fun i => ?_⟩
  unfold constructionRule
  infer_instance

instance : (operandRule flow).Steady := by
  refine ⟨fun i => ?_⟩
  unfold operandRule destructuringAssignment chained unary yieldExpression
  refine .step fun _ => .pair fun b next => ?_
  iterate 6 refine .ite inferInstance ?_
  refine .step fun w => ?_
  split <;> infer_instance

instance (level : Nat) : (binaryRule level flow).Steady := by
  refine ⟨fun i => ?_⟩
  unfold binaryRule
  infer_instance

end Expressions

section Declarations

theorem begins_destructuring : destructuring.Begins := by
  refine .after fun b => ?_
  split
  · refine .opening (begins_mark (by decide)) (fun i opening => inferInstance) fun c => ?_
    exact .after fun items => .after fun closing => startsWith_node
  split
  · refine .opening (begins_mark (by decide)) (fun i opening => inferInstance) fun c => ?_
    exact .after fun items => .after fun closing => startsWith_node
  · exact fun _ _ _ _ _ h => nomatch h

instance : declarator.Steady := by
  refine ⟨fun i => .begin (begins_destructuring.orElse (begins_word _)) fun name hName => ?_⟩
  rw [← start_asRole _ .name] at hName
  exact .step fun isTyped => .branch fun typing => .step fun value => reads_stretched (by simp) hName

instance : declarators.Steady := by
  refine ⟨fun i => ?_⟩
  unfold declarators
  infer_instance

instance : variableDeclaration.Steady := by
  refine ⟨fun i => ?_⟩
  unfold variableDeclaration
  infer_instance

instance : lexicalDeclaration.Steady := by
  refine ⟨fun i => ?_⟩
  unfold lexicalDeclaration
  infer_instance

instance : enumDeclaration.Steady := by
  refine ⟨fun i => ?_⟩
  unfold enumDeclaration enumMember
  infer_instance

instance : typeAlias.Steady := by
  refine ⟨fun i => ?_⟩
  unfold typeAlias
  infer_instance

instance : interfaceDeclaration.Steady := by
  refine ⟨fun i => ?_⟩
  unfold interfaceDeclaration extendsTypeClause
  infer_instance

instance : dottedName.Steady := by
  refine ⟨fun i => ?_⟩
  unfold dottedName
  infer_instance

instance : moduleDeclaration.Steady := by
  refine ⟨fun i => ?_⟩
  unfold moduleDeclaration
  infer_instance

instance : importAlias.Steady := by
  refine ⟨fun i => ?_⟩
  unfold importAlias
  infer_instance

instance (place : Semicolon.Place) : (plainDeclaration place).Steady := by
  refine ⟨fun i => .step fun w => ?_⟩
  iterate 5 refine .ite inferInstance ?_
  refine .step fun isTyped => .ite ?_ inferInstance
  split <;> infer_instance

instance (place : Semicolon.Place) : (declaration place).Steady := by
  refine ⟨fun i => ?_⟩
  unfold declaration ambientDeclaration
  infer_instance

instance : fromClause.Steady := by
  refine ⟨fun i => ?_⟩
  unfold fromClause
  infer_instance

instance : clauseName.Steady := by
  refine ⟨fun i => ?_⟩
  unfold clauseName
  infer_instance

instance {name : Parser Node} [∀ j, name.Reads j j] : (newName name).Steady := by
  refine ⟨fun i => ?_⟩
  unfold newName
  infer_instance

instance : importSpecifier.Steady := by
  refine ⟨fun i => ?_⟩
  unfold importSpecifier
  infer_instance

instance : importClause.Steady := by
  refine ⟨fun i => ?_⟩
  unfold importClause namespaceImport namedImports
  infer_instance

instance : importStatement.Steady := by
  refine ⟨fun i => ?_⟩
  unfold importStatement importBody importRequireClause importAttribute
  infer_instance

instance : exportStatement.Steady := by
  refine ⟨fun i => ?_⟩
  unfold exportStatement starExport clauseExport exportClause exportSpecifier defaultExport typedExport
  refine .step fun marks => .begin (begins_keyword (by decide)) fun head hHead => ?_
  exact .step fun body => reads_stretched (by simp) hHead

end Declarations

section Statements

instance : statement.Steady := inferInstanceAs (goal _).Steady
instance : opensLabel.Steady := steady_of_still fun site i a j h => by cases h; exact Nat.le_refl i
instance : endsAfterWord.Steady := inferInstanceAs (ahead _).Steady
instance (words : List String) : (namelessAfter words).Steady := inferInstanceAs (ahead _).Steady
instance : opensAsyncFunction.Steady := inferInstanceAs (ahead _).Steady

instance : expressionStatement.Steady := by
  refine ⟨fun i => ?_⟩
  unfold expressionStatement
  infer_instance

instance (place : Semicolon.Place) : (blockRule place).Steady := by
  refine ⟨fun i => ?_⟩
  unfold blockRule
  infer_instance

instance (words : List String) : (namedOrExpression words).Steady := by
  refine ⟨fun i => ?_⟩
  unfold namedOrExpression
  infer_instance

instance : labeledStatement.Steady := by
  refine ⟨fun i => ?_⟩
  unfold labeledStatement
  infer_instance

instance : nameStatement.Steady := by
  refine ⟨fun i => ?_⟩
  unfold nameStatement
  infer_instance

instance {p : Parser Node} [p.Steady] : (softStatement p).Steady := by
  refine ⟨fun i => ?_⟩
  unfold softStatement
  infer_instance

instance {text : String} {k : Kind} [k.Narrow] : (jumpStatement text k).Steady := by
  refine ⟨fun i => ?_⟩
  unfold jumpStatement
  infer_instance

instance : forInStatement.Steady := by
  refine ⟨fun i => ?_⟩
  unfold forInStatement loopTarget
  infer_instance

instance : forStatement.Steady := by
  refine ⟨fun i => ?_⟩
  unfold forStatement emptyStatement
  infer_instance

instance : doStatement.Steady := by
  refine ⟨fun i => ?_⟩
  unfold doStatement
  infer_instance

instance : switchStatement.Steady := by
  refine ⟨fun i => ?_⟩
  unfold switchStatement switchCase caseBody
  infer_instance

instance : tryStatement.Steady := by
  refine ⟨fun i => ?_⟩
  unfold tryStatement catchClause finallyClause
  infer_instance

instance (w : String) : (wordStatement w).Steady := by
  refine ⟨fun i => ?_⟩
  unfold wordStatement ifStatement elseClause whileStatement withStatement returnStatement throwStatement
    debuggerStatement exportOrExpression importOrExpression
  split
  case h_21 =>
    unfold wordStatement.wordOrExpression
    refine .step fun isTyped => .ite ?_ inferInstance
    split <;> infer_instance
  all_goals infer_instance

instance : statementRule.Steady := by
  refine ⟨fun i => ?_⟩
  unfold statementRule blockStatement emptyStatement
  infer_instance

instance : hashBangLine.Steady := steady_lexeme fun s i j h => by
  have := Lexeme.le_lineEnd s i
  grind

end Statements

end Grammar

end ModuleAtlas
