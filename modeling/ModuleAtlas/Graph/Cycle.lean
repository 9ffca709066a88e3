import ModuleAtlas.Graph.Reach

/-!
# Import cycles

A depth-first search reports a cycle for every edge back to a node it is still inside of.
-/

namespace ModuleAtlas

set_option autoImplicit false

/-- How pressing a cycle is: short ones are worse. -/
inductive Severity where
  | high | medium | low
  deriving DecidableEq, Repr, Inhabited

namespace Severity

def ofLength (n : Nat) : Severity := if n ≤ 2 then high else if n ≤ 4 then medium else low

def label : Severity → String
  | high => "high"
  | medium => "medium"
  | low => "low"

end Severity

structure Cycle where
  files : List String
  severity : Severity
  deriving DecidableEq, Repr, Inhabited

namespace Cycle

def ofFiles (files : List String) : Cycle := ⟨files, .ofLength files.length⟩

def trail (c : Cycle) : String :=
  match c.files with
  | [] => ""
  | first :: _ => " -> ".intercalate (c.files ++ [first])

end Cycle

namespace Search

/-- White nodes are not entered yet, gray ones are entered and not left, black ones are left. -/
inductive Colour where
  | white | gray | black
  deriving DecidableEq, Repr, Inhabited

structure Frame where
  node : Nat
  rest : List Nat
  deriving DecidableEq, Repr, Inhabited

structure Survey where
  starts : List Nat
  /-- The entered nodes, the innermost first. -/
  stack : List Frame
  colours : Array Colour
  /-- The cycles found so far, the last one first. -/
  cycles : List (List Nat)

namespace Survey

def begin (size : Nat) : Survey := ⟨List.range size, [], Array.replicate size .white, []⟩

/-- The colour of a node; there is nothing to enter beyond the last node. -/
def colour (s : Survey) (v : Nat) : Colour := s.colours.getD v .black

def paint (s : Survey) (v : Nat) (c : Colour) : Survey :=
  { s with colours := s.colours.setIfInBounds v c }

def trail (s : Survey) : List Nat := (s.stack.map Frame.node).reverse

def position? (s : Survey) (v : Nat) : Option Nat := s.trail.idxOf? v

/-- The trail from a node on; the whole trail if the node is not on it. -/
def loopAt (s : Survey) (v : Nat) : List Nat := s.trail.drop ((s.position? v).getD 0)

def enter (next : Nat → List Nat) (s : Survey) (v : Nat) : Survey :=
  { s.paint v .gray with stack := ⟨v, next v⟩ :: s.stack }

def step? (next : Nat → List Nat) (s : Survey) : Option Survey :=
  match s.stack with
  | [] =>
    match s.starts with
    | [] => none
    | v :: starts =>
      some (if s.colour v = .white then { s with starts }.enter next v else { s with starts })
  | ⟨node, []⟩ :: outer => some { s.paint node .black with stack := outer }
  | ⟨node, w :: rest⟩ :: outer =>
    match s.colour w with
    | .white => some ({ s with stack := ⟨node, rest⟩ :: outer }.enter next w)
    | .gray => some { s with stack := ⟨node, rest⟩ :: outer, cycles := s.loopAt w :: s.cycles }
    | .black => some { s with stack := ⟨node, rest⟩ :: outer }

inductive Move (next : Nat → List Nat) (s : Survey) : Survey → Prop where
  | skip {v : Nat} {starts : List Nat} (hStack : s.stack = []) (hStarts : s.starts = v :: starts)
      (hColour : s.colour v ≠ .white) : Move next s { s with starts }
  | start {v : Nat} {starts : List Nat} (hStack : s.stack = []) (hStarts : s.starts = v :: starts)
      (hColour : s.colour v = .white) : Move next s ({ s with starts }.enter next v)
  | leave {node : Nat} {outer : List Frame} (hStack : s.stack = ⟨node, []⟩ :: outer) :
      Move next s { s.paint node .black with stack := outer }
  | descend {node w : Nat} {rest : List Nat} {outer : List Frame}
      (hStack : s.stack = ⟨node, w :: rest⟩ :: outer) (hColour : s.colour w = .white) :
      Move next s ({ s with stack := ⟨node, rest⟩ :: outer }.enter next w)
  | close {node w : Nat} {rest : List Nat} {outer : List Frame}
      (hStack : s.stack = ⟨node, w :: rest⟩ :: outer) (hColour : s.colour w = .gray) :
      Move next s { s with stack := ⟨node, rest⟩ :: outer, cycles := s.loopAt w :: s.cycles }
  | pass {node w : Nat} {rest : List Nat} {outer : List Frame}
      (hStack : s.stack = ⟨node, w :: rest⟩ :: outer) (hColour : s.colour w = .black) :
      Move next s { s with stack := ⟨node, rest⟩ :: outer }

theorem move_of_step? {next : Nat → List Nat} {s t : Survey} (h : s.step? next = some t) :
    Move next s t := by
  unfold step? at h
  split at h
  · rename_i hStack
    split at h
    · cases h
    · rename_i v starts hStarts
      cases h
      split
      · exact .start hStack hStarts ‹_›
      · exact .skip hStack hStarts ‹_›
  · cases h
    exact .leave ‹_›
  · rename_i node w rest outer hStack
    split at h <;> cases h
    · exact .descend hStack ‹_›
    · exact .close hStack ‹_›
    · exact .pass hStack ‹_›

def untouched (s : Survey) : Nat := s.colours.count .white

def pending (s : Survey) : Nat :=
  s.starts.length + s.stack.length + (s.stack.flatMap Frame.rest).length

theorem lt_size_of_colour_ne_black {s : Survey} {v : Nat} (h : s.colour v ≠ .black) :
    v < s.colours.size := by
  apply Classical.byContradiction
  intro hv
  simp [colour, Array.getD, hv] at h

theorem untouched_enter_lt (next : Nat → List Nat) {s : Survey} {v : Nat}
    (h : s.colour v = .white) : (s.enter next v).untouched < s.untouched := by
  have hv : v < s.colours.size := lt_size_of_colour_ne_black (by simp [h])
  have hColour : s.colours[v] = .white := by simpa [colour, Array.getD, hv] using h
  have hPos : 0 < s.colours.count .white :=
    Array.count_pos_iff.mpr (hColour ▸ Array.getElem_mem hv)
  have hCount : (s.colours.set v .gray).count .white = s.colours.count .white - 1 := by
    rw [Array.count_set, hColour]
    rfl
  have hPaint : (s.enter next v).colours = s.colours.set v .gray := by
    simp only [enter, paint, Array.setIfInBounds, dif_pos hv]
  rw [untouched, untouched, hPaint, hCount]
  omega

theorem untouched_paint_black_le (s : Survey) (v : Nat) :
    (s.paint v .black).untouched ≤ s.untouched := by
  unfold untouched paint Array.setIfInBounds
  split
  · simp [Array.count_set]
  · exact Nat.le_refl _

theorem step?_lt {next : Nat → List Nat} {s t : Survey} (h : s.step? next = some t) :
    Prod.Lex (· < ·) (· < ·) (t.untouched, t.pending) (s.untouched, s.pending) := by
  rw [Prod.lex_def]
  cases move_of_step? h with
  | skip hStack hStarts hColour =>
    exact .inr ⟨rfl, by simp [pending, hStarts]⟩
  | start hStack hStarts hColour => exact .inl (untouched_enter_lt next hColour)
  | @leave node outer hStack =>
    rcases Nat.lt_or_eq_of_le (untouched_paint_black_le s node) with hLt | hEq
    · exact .inl hLt
    · exact .inr ⟨hEq, by simp [pending, hStack, paint]⟩
  | descend hStack hColour =>
    exact .inl (untouched_enter_lt next (s := { s with stack := _ }) hColour)
  | close hStack hColour => exact .inr ⟨rfl, by simp [pending, hStack]⟩
  | pass hStack hColour => exact .inr ⟨rfl, by simp [pending, hStack]⟩

def run (next : Nat → List Nat) (s : Survey) : Survey :=
  match _h : s.step? next with
  | none => s
  | some t => run next t
termination_by (s.untouched, s.pending)
decreasing_by exact step?_lt _h

end Survey

def cycles (next : Nat → List Nat) (size : Nat) : List (List Nat) :=
  ((Survey.begin size).run next).cycles.reverse

def onCycle (next : Nat → List Nat) (size : Nat) (node : Nat) : Bool :=
  (node :: reached next size none node).any fun m => (next m).contains node

def spans (next : Nat → List Nat) (size : Nat) : Array (List Nat) :=
  (Array.range size).map fun v => v :: reached next size none v

def component (spans : Array (List Nat)) (v : Nat) : List Nat :=
  (spans.getD v []).filter fun w => (spans.getD w []).contains v

def components (next : Nat → List Nat) (size : Nat) : List (List Nat) :=
  let spans := spans next size
  (List.range size).foldl (fun found v =>
    if found.any (·.contains v) then found else found ++ [component spans v]) []

/-- Is there a way around in a component: between its nodes, or at its only node? -/
def loops (next : Nat → List Nat) (nodes : List Nat) : Bool :=
  decide (1 < nodes.length) || nodes.head?.any fun v => (next v).contains v

end Search

namespace FileGraph

def cycles (g : FileGraph) : List Cycle :=
  (Search.cycles g.successors g.nodes.size).map fun c =>
    .ofFiles (c.map fun i => g.display (g.pathAt i))

def hasCycles (g : FileGraph) : Bool :=
  (List.range g.nodes.size).any (Search.onCycle g.successors g.nodes.size)

def cyclicNodes (g : FileGraph) : List Nat :=
  ((Search.components g.successors g.nodes.size).filter (Search.loops g.successors)).flatten

def filesInCycles (g : FileGraph) : List Path := (g.cyclicNodes.map g.pathAt).mergeSort Path.le

end FileGraph

end ModuleAtlas
