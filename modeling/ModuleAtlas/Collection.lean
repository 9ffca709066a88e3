/-!
# Sets and tables

A set of texts is a list in text order without repetition. A table lists keys with their values,
each key once; which keys count as one is told to every function.
-/

namespace ModuleAtlas

set_option autoImplicit false

namespace Text

variable {α : Type}

def dropRepeats [BEq α] : List α → List α
  | [] => []
  | [a] => [a]
  | a :: b :: rest => if a == b then dropRepeats (b :: rest) else a :: dropRepeats (b :: rest)

def setOf (texts : List String) : List String :=
  dropRepeats (texts.mergeSort fun a b => decide (a ≤ b))

def firstSeen [BEq α] (xs : List α) : List α :=
  xs.foldl (fun seen x => if seen.contains x then seen else seen ++ [x]) []

end Text

section

variable {α : Type} (le : α → α → Bool)

def insertInOrder (a : α) : List α → List α
  | [] => [a]
  | b :: rest => if le a b then a :: b :: rest else b :: insertInOrder a rest

def inOrder (xs : List α) : List α := xs.foldr (insertInOrder le) []

end

abbrev Table (κ υ : Type) := List (κ × υ)

namespace Table

variable {κ υ : Type}

def value? (same : κ → κ → Bool) (t : Table κ υ) (k : κ) : Option υ :=
  (t.find? fun e => same e.1 k).map Prod.snd

/-- Change the value of a key; a key that is new comes last. -/
def alter (same : κ → κ → Bool) (k : κ) (f : Option υ → υ) : Table κ υ → Table κ υ
  | [] => [(k, f none)]
  | e :: rest => if same e.1 k then (e.1, f (some e.2)) :: rest else e :: alter same k f rest

def put (same : κ → κ → Bool) (k : κ) (v : υ) (t : Table κ υ) : Table κ υ :=
  t.alter same k fun _ => v

/-- Fill a table item by item; what is added to a key without a value is added to `start`. -/
def gather {α : Type} (same : κ → κ → Bool) (add : υ → α → υ) (start : υ) (items : List (κ × α)) :
    Table κ υ :=
  items.foldl (fun t item => t.alter same item.1 fun old => add (old.getD start) item.2) []

end Table

end ModuleAtlas
