import ModuleAtlas.Syntax.Comment
import ModuleAtlas.Syntax.Grammar.Statements

/-!
# Reading a syntax tree

`parse` reads a whole source. The rules call each other through goals; every call spends
one unit of `depth`, and the text bounds how deep they can nest.
-/

namespace ModuleAtlas.Syntax

set_option autoImplicit false

open Grammar

def rule : Goal → Parser Node
  | .statement => statementRule
  | .block place => blockRule place
  | .expression flow => binaryRule 1 flow
  | .binary level flow => binaryRule level flow
  | .operand flow => operandRule flow
  | .construction flow => constructionRule flow
  | .pattern => patternRule
  | .parameters => parametersRule
  | .arguments => argumentsRule
  | .type ending => typeRule ending
  | .operandType ending => operandTypeRule ending
  | .typeArguments => typeArgumentsRule
  | .typeParameters => typeParametersRule
  | .objectType => objectTypeRule
  | .element => elementRule

/-- Answer a goal at a position, with rules nested at most `depth` deep. -/
def answer (s : Source) (d : Dialect) : Nat → Goal → Nat → Option (Node × Nat)
  | 0, _, _ => none
  | depth + 1, g, i => rule g ⟨s, d, answer s d depth⟩ i

def parse (d : Dialect) (s : Source) : Option Node :=
  match programRule ⟨s, d, answer s d (16 * s.size + 64)⟩ 0 with
  | some (n, _) => some (Comment.place s n)
  | none => none

end ModuleAtlas.Syntax
