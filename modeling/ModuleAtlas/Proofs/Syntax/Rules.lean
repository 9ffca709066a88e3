import ModuleAtlas.Syntax.Grammar.Statements
import ModuleAtlas.Proofs.Syntax.Sound

/-!
# The rules of the grammar are sound

One search settles most rules. Written out are those that match on a word, and those that
name something: functions, classes, import specifiers, and names that change their kind.
-/

namespace ModuleAtlas

set_option autoImplicit false
set_option synthInstance.maxSize 32768

open Node ModuleAtlas.Parser

namespace Grammar

section Names

instance (k : Kind) : (plainName k).Sound := inferInstanceAs (wordWhere _ _).Sound

instance (flow : Flow) : (sequence flow).Sound := by
  unfold sequence
  infer_instance

instance : spread.Sound := by
  unfold spread
  infer_instance

theorem gives_stringLiteral : stringLiteral.Gives fun n => WellMade n ∧ Quoted n.text :=
  .lexeme fun _ _ _ h => ⟨inferInstance, Lexeme.quoted_of_stringEnd? h⟩

instance : stringLiteral.Sound := ⟨gives_stringLiteral.mono fun _ h => h.1⟩
instance : numberLiteral.Sound := inferInstanceAs (lexeme _ _).Sound
instance : regexLiteral.Sound := inferInstanceAs (lexeme _ _).Sound
instance : privateName.Sound := inferInstanceAs (lexeme _ _).Sound

instance {hole : Parser Node} [hHole : hole.Sound] : (templatePiece hole).Sound := by
  refine ⟨fun site hSite i ns j h => ?_⟩
  simp only [templatePiece] at h
  split at h
  · cases h
    infer_instance
  split at h
  · split at h <;> cases h
    infer_instance
  split at h
  · split at h <;> cases h
    rename_i n hn
    have hMade := hHole.gives site hSite i n j hn
    infer_instance
  · cases h

instance {k : Kind} {hole : Parser Node} [k.Free] [hole.Sound] : (template k hole).Sound := by
  unfold template
  infer_instance

instance : templateString.Sound := by
  unfold templateString
  infer_instance

instance : propertyName.Sound := by
  unfold propertyName computedName
  infer_instance

instance (ending : Option Semicolon.Place) (words : List String) : (modifiers ending words).Sound := by
  unfold modifiers
  infer_instance

instance : parenthesized.Sound := by
  unfold parenthesized
  infer_instance

instance : argumentsRule.Sound := by
  unfold argumentsRule
  infer_instance

instance : decorators.Sound := by
  unfold decorators decorator decorator.decorated
  infer_instance

end Names

section Types

variable (ending : Ending)

instance : (unionType ending).Sound := by
  unfold unionType intersectionType typeChain typeOperator
  infer_instance

instance : (typeRule ending).Sound := by
  unfold typeRule
  infer_instance

instance : (typeMark ending).Sound := by
  unfold typeMark
  infer_instance

instance : (optionalMark ending).Sound := by
  unfold optionalMark
  infer_instance

instance : (typePredicate ending).Sound := by
  unfold typePredicate
  infer_instance

instance : (resultType ending).Sound := by
  unfold resultType assertsType
  infer_instance

instance : (resultMark ending).Sound := by
  refine Sound.bind fun colon _ => Sound.bind fun type _ => ?_
  split <;> infer_instance

instance : (signature ending).Sound := by
  unfold signature
  infer_instance

instance : typeArgumentsRule.Sound := by
  unfold typeArgumentsRule
  infer_instance

instance : typeParametersRule.Sound := by
  unfold typeParametersRule typeParameter
  infer_instance

instance : importedModule.Sound := by
  unfold importedModule
  infer_instance

instance {base : Node} [WellMade base] : (memberChain ending base).Sound := by
  unfold memberChain
  infer_instance

instance : (namedType ending).Sound := by
  refine ⟨(gives_word .typeIdentifier).bind fun first hFirst => ?_⟩
  -- What the name grows to is a branch or a leaf that is not quoted, so it may become an identifier.
  refine Gives.bind (P := fun n => WellMade n ∧ ¬ Quoted n.text) (.grow ?_ ⟨hFirst.made, hFirst.bare⟩) ?_
  · rintro n ⟨hMade, hBare⟩
    refine .and ?_ (.after fun _ => .after fun _ => .after fun _ => .after fun _ => gives_node.mono ?_)
    · cases n with
      | leaf k r s t =>
        have hOuter : (leaf .identifier r s t).Sound := sound_leaf fun _ => hBare
        exact Sound.gives
      | branch k r s e cs =>
        have hChildren : AllSound cs := ⟨(sound_iff.mp hMade.good.1).2⟩
        have hOuter : (branch .nestedIdentifier r s e cs).Sound :=
          sound_iff.mpr ⟨.of_free rfl, hChildren.sound⟩
        exact Sound.gives
    · rintro _ ⟨i, j, rfl⟩
      exact not_quoted_empty
  · rintro name ⟨hMade, -⟩
    exact Sound.gives

instance : tupleType.Sound := by
  unfold tupleType tupleMember
  infer_instance

instance : (wordType ending).Sound := by
  unfold wordType typeQuery inferType
  infer_instance

instance : (indexedType ending).Sound := by
  unfold indexedType primaryType templateLiteralType signedNumber
  infer_instance

instance : (operandTypeRule ending).Sound := by
  unfold operandTypeRule functionType constructorType
  infer_instance

instance : (indexSignature ending).Sound := by
  refine Sound.bind fun before _ => Sound.bind fun opening _ => ?_
  refine ⟨(gives_word .identifier).bind fun name hName => ?_⟩
  have hMade := hName.made
  have hType : (name.asKind .typeIdentifier).Sound := sound_asKind_of_isName rfl hName.bare
  exact Sound.gives

instance : objectTypeRule.Sound := by
  unfold objectTypeRule typeMember
  infer_instance

end Types

section Functions

variable (flow : Flow)

instance : assignable.Sound := by
  unfold assignable
  infer_instance

instance : (initializer flow).Sound := by
  unfold initializer
  infer_instance

instance {target : Parser Node} [target.Sound] : (defaulted target).Sound := by
  unfold defaulted
  infer_instance

instance : restPattern.Sound := by
  unfold restPattern
  infer_instance

instance : destructuring.Sound := by
  unfold destructuring objectPattern arrayPattern objectPatternElement
  infer_instance

instance : patternRule.Sound := by
  unfold patternRule
  infer_instance

instance : parametersRule.Sound := by
  unfold parametersRule plainParameter typedParameter parameterModifiers
  infer_instance

instance : (functionHead flow).Sound := by
  unfold functionHead
  infer_instance

instance : (functionExpression flow).Sound := by
  refine ⟨Sound.gives.bind fun head _ => (gives_word .identifier).maybe.bind fun name hName => ?_⟩
  have hName := fun n hn => (hName n hn).isName rfl
  have hSound := allSound_map (r := .name) hName
  have hNamed := namedBy_map (r := .name) hName
  refine Sound.gives.bind fun rest _ => Sound.gives.bind fun body _ => gives_named ?_
  split <;> decide

instance (place : Semicolon.Place) : (functionDeclaration place).Sound := by
  refine ⟨Sound.gives.bind fun head _ => (gives_word .identifier).bind fun name hName => ?_⟩
  have hName := hName.isName rfl
  refine Sound.gives.bind fun rest _ => Sound.gives.bind fun b _ => ?_
  split
  · refine Sound.gives.bind fun body _ => .after fun _ => gives_named ?_
    split <;> decide
  · exact Sound.gives

instance : (arrowBody flow).Sound := by
  unfold arrowBody
  infer_instance

instance : (arrowFunction flow).Sound := by
  unfold arrowFunction arrowHead
  infer_instance

instance : (bareArrowFunction flow).Sound := by
  unfold bareArrowFunction
  infer_instance

end Functions

section Classes

instance : plainMember.Sound := by
  unfold plainMember
  infer_instance

instance : typedMember.Sound := by
  unfold typedMember
  infer_instance

instance : classBody.Sound := by
  unfold classBody classStaticBlock
  infer_instance

instance : classRest.Sound := by
  unfold classRest classHeritage extendsClause implementsClause extendedClass
  infer_instance

theorem gives_className : className.Gives IsName := by
  refine .after fun isTyped => ?_
  split
  · exact (gives_wordWhere .typeIdentifier _).mono fun _ h => h.isName rfl
  · exact (gives_wordWhere .identifier _).mono fun _ h => h.isName rfl

instance : classExpression.Sound := by
  refine ⟨Sound.gives.bind fun marks _ => Sound.gives.bind fun word _ => ?_⟩
  refine gives_className.maybe.bind fun name hName => Sound.gives.bind fun rest _ => ?_
  have hSound := allSound_map (r := .name) hName
  have hNamed := namedBy_map (r := .name) hName
  exact gives_named (by decide)

instance (place : Semicolon.Place) : (classDeclaration place).Sound := by
  refine ⟨Sound.gives.bind fun marks _ => .after fun isTyped => ?_⟩
  refine Gives.branch (P := WellMade) Sound.gives Sound.gives fun abstract _ => ?_
  refine Sound.gives.bind fun word _ => gives_className.bind fun name hName => ?_
  refine Sound.gives.bind fun rest _ => ?_
  dsimp only
  split
  · exact .after fun _ => gives_named (by decide)
  · exact gives_named (by decide)

end Classes

section Markup

instance (k : Kind) : (markupWord k).Sound := by
  refine ⟨.lexeme fun text i j h => wellMade_leaf fun _ => ?_⟩
  obtain ⟨hLt, h⟩ := Option.ite_none_right_eq_some.mp h
  cases h
  exact Lexeme.not_quoted_markupWord hLt

instance : namespacedName.Sound := by
  unfold namespacedName
  infer_instance

instance : elementName.Sound := by
  unfold elementName
  infer_instance

instance : markupExpression.Sound := by
  unfold markupExpression
  infer_instance

instance : markupText.Sound := by
  refine ⟨fun site _ i ns j h => ?_⟩
  unfold markupText at h
  split at h <;> cases h
  infer_instance

instance : elementAttribute.Sound := by
  unfold elementAttribute attributeValue
  infer_instance

instance : tagHead.Sound := by
  unfold tagHead
  infer_instance

instance : elementRule.Sound := by
  unfold elementRule closingTag markupChild
  infer_instance

end Markup

section Expressions

variable (flow : Flow) {n : Node} [WellMade n]

instance : objectElement.Sound := by
  refine ⟨.orElse Sound.gives (.after fun isTyped => Sound.gives.bind fun before _ => ?_)⟩
  refine Sound.gives.bind fun name hName => ?_
  refine Gives.branch (P := WellMade) Sound.gives Sound.gives fun question _ => .after fun b => ?_
  split
  · exact Sound.gives
  refine .after fun _ => ?_
  split
  · exact Sound.gives
  -- A bare name was read as the name of a member.
  refine (gives_ensure _).bind fun _ hKind => ?_
  have hBare : ¬ Quoted name.text := by
    apply (sound_iff.mp inferInstance).1.bare
    rw [isName, eq_of_beq hKind]
    rfl
  have hShorthand : WellMade (name.asKind .shorthandPropertyIdentifier) :=
    wellMade_asKind (sound_asKind_of_isName rfl hBare)
  exact Sound.gives

instance : objectLiteral.Sound := by
  unfold objectLiteral
  infer_instance

instance {middle : List Node} [AllSound middle] : (callOf n middle).Sound := by
  unfold callOf
  infer_instance

instance : importExpression.Sound := by
  unfold importExpression importExpression.word'
  infer_instance

instance : (wordExpression flow).Sound := by
  refine Sound.bind fun w _ => ?_
  split <;> infer_instance

instance : (primary flow).Sound := by
  unfold primary arrayLiteral
  infer_instance

instance : (memberStep n).Sound := by
  unfold memberStep
  infer_instance

instance {middle : List Node} [AllSound middle] : (subscriptStep n middle).Sound := by
  unfold subscriptStep
  infer_instance

instance : (taggedStep n).Sound := by
  unfold taggedStep
  infer_instance

instance : (postfixStep flow n).Sound := by
  unfold postfixStep optionalStep instantiationStep
  infer_instance

instance : (constructorStep n).Sound := by
  unfold constructorStep
  infer_instance

instance : (constructionRule flow).Sound := by
  unfold constructionRule
  infer_instance

instance : (assigned flow n).Sound := by
  refine .ite (.bind fun b _ => .ite inferInstance ⟨.orElse Sound.gives (.orElse ?_ Sound.gives)⟩) inferInstance
  refine .after fun _ => .after fun _ => .after fun _ => .after fun s => .after fun i => ?_
  dsimp only
  split <;> exact Sound.gives

instance : (operandRule flow).Sound := by
  unfold operandRule destructuringAssignment chained unary yieldExpression
  refine .bind fun _ _ => .bind fun (b, next) _ => ?_
  iterate 6 refine .ite inferInstance ?_
  refine .bind fun w _ => ?_
  split <;> infer_instance

instance : (ternaryStep flow n).Sound := by
  unfold ternaryStep ternaryStep.branch
  infer_instance

instance : (assertionStep flow n).Sound := by
  unfold assertionStep
  infer_instance

instance (level : Nat) : (binaryStep level flow n).Sound := by
  refine .bind fun _ _ => .bind fun _ _ => .bind fun s _ => .bind fun i _ => ?_
  dsimp only
  split <;> infer_instance

instance (level : Nat) : (binaryRule level flow).Sound := by
  unfold binaryRule
  infer_instance

end Expressions

section Declarations

instance : declarators.Sound := by
  unfold declarators declarator
  infer_instance

instance : variableDeclaration.Sound := by
  unfold variableDeclaration
  infer_instance

instance : lexicalDeclaration.Sound := by
  unfold lexicalDeclaration
  infer_instance

instance : enumDeclaration.Sound := by
  unfold enumDeclaration enumMember
  infer_instance

instance : typeAlias.Sound := by
  unfold typeAlias
  infer_instance

instance : interfaceDeclaration.Sound := by
  unfold interfaceDeclaration extendsTypeClause
  infer_instance

instance : dottedName.Sound := by
  unfold dottedName
  infer_instance

instance : moduleDeclaration.Sound := by
  unfold moduleDeclaration
  infer_instance

instance : importAlias.Sound := by
  unfold importAlias
  infer_instance

instance (place : Semicolon.Place) : (plainDeclaration place).Sound := by
  refine .bind fun w _ => ?_
  iterate 5 refine .ite inferInstance ?_
  refine .bind fun isTyped _ => .ite ?_ inferInstance
  split <;> infer_instance

instance (place : Semicolon.Place) : (declaration place).Sound := by
  unfold declaration ambientDeclaration
  infer_instance

instance : fromClause.Sound := by
  unfold fromClause
  infer_instance

instance : clauseName.Sound := by
  unfold clauseName
  infer_instance

instance {name : Parser Node} [name.Sound] : (newName name).Sound := by
  unfold newName
  infer_instance

/-- A node that an import specifier may have. -/
structure Speaks (n : Node) : Prop where
  sound : n.Sound
  text : n.role = none ∨ n.isName = true ∨ Quoted n.text

theorem Speaks.of_wellMade {n : Node} (h : WellMade n) : Speaks n := ⟨inferInstance, .inl h.good.2⟩

theorem Speaks.asRole {n : Node} {r : Role} [n.Sound] (h : n.isName = true ∨ Quoted n.text) :
    Speaks (n.asRole r) :=
  ⟨inferInstance, .inr (by simpa using h)⟩

theorem gives_clauseName :
    clauseName.Gives fun n => Speaks (n.asRole .name) := by
  refine .orElse (gives_stringLiteral.mono ?_) ((gives_word .identifier).mono ?_)
  · rintro n ⟨hMade, hQuoted⟩
    exact .asRole (.inr hQuoted)
  · intro n hWord
    have hName := hWord.isName rfl
    exact .asRole (.inl hName.isName)

theorem gives_newName : (newName (word .identifier)).Gives fun ns => ∀ n ∈ ns, Speaks n := by
  refine Sound.gives.bind fun as hAs => (gives_word .identifier).bind fun bound hBound => ?_
  have hName := hBound.isName rfl
  have hSpeaks : ∀ n ∈ [as, bound.asRole .alias], Speaks n := by
    simpa using ⟨Speaks.of_wellMade hAs, .asRole (.inl hName.isName)⟩
  exact gives_pure hSpeaks

theorem gives_specifier {cs : List Node} (h : ∀ c ∈ cs, Speaks c) :
    (node .importSpecifier cs).Gives WellMade := by
  refine gives_node.mono ?_
  rintro _ ⟨i, j, rfl⟩
  refine ⟨sound_iff.mpr ⟨⟨fun _ => not_quoted_empty, nofun, fun _ c hc hRole => ?_⟩,
    fun c hc => (h c hc).sound⟩, rfl⟩
  exact (h c hc).text.resolve_left (by rcases hRole with hRole | hRole <;> simp [hRole])

instance : importSpecifier.Sound := by
  have hPlain : ∀ before : List Node, (∀ c ∈ before, WellMade c) → Gives WellMade
      ((do
        let name ← clauseName
        let rename ← newName (word .identifier)
        let _ ← nextByte >>= fun b => ensure (b == 44 || b == 125)
        node .importSpecifier (before ++ [name.asRole .name] ++ rename))
      <|> (do
        let name ← word .identifier
        let _ ← nextByte >>= fun b => ensure (b == 44 || b == 125)
        node .importSpecifier (before ++ [name.asRole .name]))) := by
    intro before hBefore
    have hBefore : ∀ c ∈ before, Speaks c := fun c hc => .of_wellMade (hBefore c hc)
    refine .orElse ?_ ?_
    · refine gives_clauseName.bind fun name hName => gives_newName.bind fun rename hRename => ?_
      refine .after fun _ => gives_specifier ?_
      simpa only [List.forall_mem_append, List.forall_mem_singleton] using ⟨⟨hBefore, hName⟩, hRename⟩
    · refine (gives_word .identifier).bind fun name hWord => .after fun _ => gives_specifier ?_
      have hName := hWord.isName rfl
      simpa only [List.forall_mem_append, List.forall_mem_singleton] using
        ⟨hBefore, Speaks.asRole (.inl hName.isName)⟩
  refine ⟨.after fun isTyped => ?_⟩
  split
  · refine .orElse (Sound.gives.bind fun only hOnly => hPlain [only] ?_) (hPlain [] nofun)
    exact List.forall_mem_singleton.mpr hOnly
  · exact hPlain [] nofun

instance : importClause.Sound := by
  unfold importClause namespaceImport namedImports
  infer_instance

instance : importStatement.Sound := by
  unfold importStatement importBody importRequireClause importAttribute
  infer_instance

instance : exportStatement.Sound := by
  unfold exportStatement starExport clauseExport exportClause exportSpecifier defaultExport typedExport
  infer_instance

end Declarations

section Statements

instance : expressionStatement.Sound := by
  unfold expressionStatement
  infer_instance

instance (place : Semicolon.Place) : (blockRule place).Sound := by
  unfold blockRule statement
  infer_instance

instance (words : List String) : (namedOrExpression words).Sound := by
  unfold namedOrExpression
  infer_instance

instance : nameStatement.Sound := by
  unfold nameStatement labeledStatement statement
  infer_instance

instance {p : Parser Node} [p.Sound] : (softStatement p).Sound := by
  unfold softStatement labeledStatement statement
  infer_instance

instance {text : String} {k : Kind} [k.Free] : (jumpStatement text k).Sound := by
  unfold jumpStatement
  infer_instance

instance : forInStatement.Sound := by
  unfold forInStatement loopTarget statement
  infer_instance

instance : forStatement.Sound := by
  unfold forStatement emptyStatement statement
  infer_instance

instance : doStatement.Sound := by
  unfold doStatement statement
  infer_instance

instance : switchStatement.Sound := by
  unfold switchStatement switchCase caseBody statement
  infer_instance

instance : tryStatement.Sound := by
  unfold tryStatement catchClause finallyClause
  infer_instance

instance (w : String) : (wordStatement w).Sound := by
  unfold wordStatement ifStatement elseClause whileStatement withStatement returnStatement throwStatement
    debuggerStatement exportOrExpression importOrExpression statement
  split
  case h_21 =>
    unfold wordStatement.wordOrExpression
    refine .bind fun isTyped _ => .ite ?_ inferInstance
    split <;> infer_instance
  all_goals infer_instance

instance : statementRule.Sound := by
  unfold statementRule blockStatement emptyStatement
  infer_instance

instance : programRule.Sound := by
  unfold programRule hashBangLine statement
  infer_instance

end Statements

end Grammar

end ModuleAtlas
