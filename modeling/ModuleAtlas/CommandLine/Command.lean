import ModuleAtlas.CommandLine.Arguments
import ModuleAtlas.Export.Format

/-!
# Commands

What a command is asked to do, with the values of its options read.
-/

namespace ModuleAtlas.CommandLine

set_option autoImplicit false

/-- A number of at most 64 bits, with or without a plus. -/
def number? (text : String) : Option Nat :=
  let digits := match text.toList with
    | '+' :: rest => rest
    | chars => chars
  if digits.isEmpty || !digits.all Char.isDigit then none
  else
    let n := digits.foldl (fun n c => n * 10 + (c.toNat - 48)) 0
    if n < Nat.pow 2 64 then some n else none

structure Project where
  root? : Option String
  config? : Option String
  included : List String
  excluded : List String
  deriving DecidableEq, Repr, Inhabited

structure Delivery where
  format? : Option Format
  output? : Option String
  deriving DecidableEq, Repr, Inhabited

inductive Command where
  | analyze (project : Project) (delivery : Delivery) (complexity? mixed? : Option Nat)
  | graph (project : Project) (delivery : Delivery)
  | cycles (project : Project)
  | path (start goal : String) (project : Project)
  | related (file : String) (minShared? : Option Nat) (project : Project)
  | version
  deriving DecidableEq, Repr, Inhabited

def Given.parsed {α : Type} (g : Given) (flag : Flag) (read? : String → Option α) :
    Except Stop (Option α) :=
  match g.value? flag with
  | none => .ok none
  | some text =>
    match read? text with
    | some a => .ok (some a)
    | none => .error .misuse

/-- A path as the value of an option; it must not be empty. -/
def path? (text : String) : Option String := if text == "" then none else some text

def Given.project (g : Given) (root? : Option String) : Except Stop Project := do
  return ⟨root?, ← g.parsed .config path?, g.valuesOf .included, g.valuesOf .excluded⟩

def Given.delivery (g : Given) : Except Stop Delivery := do
  return ⟨← g.parsed .format Format.ofName?, ← g.parsed .output path?⟩

def Given.command (g : Given) : Verb → Except Stop Command
  | .analyze => do
    return .analyze (← g.project g.paths.head?) (← g.delivery)
      (← g.parsed .complexityThreshold number?) (← g.parsed .mixedThreshold number?)
  | .graph => do return .graph (← g.project g.paths.head?) (← g.delivery)
  | .cycles => do return .cycles (← g.project g.paths.head?)
  | .path =>
    match g.paths with
    | start :: goal :: rest => do return .path start goal (← g.project rest.head?)
    | _ => .error .misuse
  | .related =>
    match g.paths with
    | file :: rest => do
      return .related file (← g.parsed .minShared number?) (← g.project rest.head?)
    | [] => .error .misuse
  | .version => .ok .version

def read (args : List String) : Except Stop (Option Command) := do
  match ← splitVerb args with
  | none => return none
  | some (verb, rest) => return some (← (← gather verb false {} rest).command verb)

end ModuleAtlas.CommandLine
