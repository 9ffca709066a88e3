import ModuleAtlas.Graph.Basic

/-!
# Depth of import chains

The depth of a file is the number of files on the longest import chain from it that meets
no file twice. Depths that no cycle cut short are remembered.
-/

namespace ModuleAtlas

set_option autoImplicit false

namespace Search

abbrev Depths := List (Nat × Nat)

def Depths.get? (known : Depths) (node : Nat) : Option Nat := known.lookup node

/-- An entered node with the successors still to come, the longest chain found below it, and
whether that was cut short by a node of the trail. -/
structure Dive.Frame where
  node : Nat
  rest : List Nat
  best : Nat := 0
  cut : Bool := false
  deriving DecidableEq, Repr, Inhabited

def Dive.Frame.take (f : Dive.Frame) (depth : Nat) (cut : Bool) : Dive.Frame :=
  { f with best := max f.best depth, cut := f.cut || cut }

structure Dive where
  /-- The entered nodes, the innermost first. -/
  stack : List Dive.Frame
  /-- Marks the entered nodes. -/
  inside : Array Bool
  known : Depths

namespace Dive

/-- There is nothing to enter beyond the last node. -/
def isInside (s : Dive) (v : Nat) : Bool := s.inside.getD v true

def enter (next : Nat → List Nat) (s : Dive) (v : Nat) : Dive :=
  { s with stack := ⟨v, next v, 0, false⟩ :: s.stack, inside := s.inside.setIfInBounds v true }

def begin (next : Nat → List Nat) (size node : Nat) (known : Depths) : Dive :=
  Dive.enter next ⟨[], Array.replicate size false, known⟩ node

def look (next : Nat → List Nat) (s : Dive) (f : Frame) (outer : List Frame) (w : Nat) : Dive :=
  if s.isInside w then { s with stack := { f with cut := true } :: outer }
  else
    match s.known.get? w with
    | some d => { s with stack := { f with best := max f.best d } :: outer }
    | none => Dive.enter next { s with stack := f :: outer } w

def leave (s : Dive) (f : Frame) (outer : List Frame) : Dive where
  stack :=
    match outer with
    | [] => []
    | parent :: outer => parent.take (f.best + 1) f.cut :: outer
  inside := s.inside.setIfInBounds f.node false
  known := if f.cut then s.known else (f.node, f.best + 1) :: s.known

/-- What entering or passing over each of some nodes costs, and leaving the node they follow. -/
def total (cost : Nat → Nat) : List Nat → Nat
  | [] => 1
  | w :: ws => 1 + cost w + total cost ws

/-- The most work that a node can bring while so many nodes are free. -/
def work (next : Nat → List Nat) : Nat → Nat → Nat
  | 0, _ => 0
  | free + 1, v => total (work next free) (next v)

/-- The most work that is left, with one more free node for each frame that is left. -/
def workOf (next : Nat → List Nat) : Nat → List Frame → Nat
  | _, [] => 0
  | free, f :: outer => total (work next free) f.rest + workOf next (free + 1) outer

def free (s : Dive) : Nat := s.inside.count false

theorem total_le {cost cost' : Nat → Nat} (h : ∀ w, cost w ≤ cost' w) (ws : List Nat) :
    total cost ws ≤ total cost' ws := by
  induction ws with
  | nil => exact Nat.le_refl _
  | cons w ws ih =>
    have hFirst := h w
    simp only [total]
    omega

theorem total_pos (cost : Nat → Nat) (ws : List Nat) : 0 < total cost ws := by
  cases ws <;> simp only [total] <;> omega

theorem work_le_succ (next : Nat → List Nat) (free v : Nat) : work next free v ≤ work next (free + 1) v := by
  induction free generalizing v with
  | zero => exact Nat.zero_le _
  | succ free ih => exact total_le ih (next v)

theorem workOf_le_succ (next : Nat → List Nat) (free : Nat) (stack : List Frame) :
    workOf next free stack ≤ workOf next (free + 1) stack := by
  induction stack generalizing free with
  | nil => exact Nat.le_refl _
  | cons f outer ih =>
    exact Nat.add_le_add (total_le (work_le_succ next free) f.rest) (ih (free + 1))

theorem workOf_le (next : Nat → List Nat) {free free' : Nat} (h : free ≤ free') (stack : List Frame) :
    workOf next free stack ≤ workOf next free' stack := by
  induction h with
  | refl => exact Nat.le_refl _
  | step _ ih => exact Nat.le_trans ih (workOf_le_succ next _ stack)

theorem free_enter (next : Nat → List Nat) {s : Dive} {v : Nat} (h : s.isInside v = false) :
    (s.enter next v).free + 1 = s.free := by
  have hv : v < s.inside.size := by
    apply Classical.byContradiction
    intro hv
    simp [isInside, Array.getD, hv] at h
  have hInside : s.inside[v] = false := by simpa [isInside, Array.getD, hv] using h
  have hPos : 0 < s.inside.count false := Array.count_pos_iff.mpr (hInside ▸ Array.getElem_mem hv)
  simp only [free, enter, Array.setIfInBounds, dif_pos hv, Array.count_set, hInside]
  simp
  omega

theorem free_leave_le (s : Dive) (f : Frame) (outer : List Frame) : (s.leave f outer).free ≤ s.free + 1 := by
  simp only [free, leave, Array.setIfInBounds]
  split
  · rw [Array.count_set]
    split <;> split <;> omega
  · omega

theorem workOf_look_lt {next : Nat → List Nat} {s : Dive} {f : Frame} {outer : List Frame} {w : Nat}
    {rest : List Nat} (hRest : f.rest = w :: rest) :
    let t := s.look next { f with rest } outer w
    workOf next t.free t.stack < workOf next s.free (f :: outer) := by
  have hPass : workOf next s.free (f :: outer) =
      1 + work next s.free w + workOf next s.free ({ f with rest } :: outer) := by
    simp only [workOf, hRest, total]
    omega
  rw [hPass]
  unfold look
  split
  · simp only [free, workOf]
    omega
  · rename_i hw
    split
    · simp only [free, workOf]
      omega
    · -- one node less is free for what is below the entered one
      have hFree : (Dive.enter next { s with stack := { f with rest } :: outer } w).free + 1 = s.free :=
        free_enter next (s := { s with stack := { f with rest } :: outer }) (Bool.eq_false_iff.mpr hw)
      rw [← hFree]
      simp only [enter, workOf, work]
      omega

theorem workOf_leave_lt {next : Nat → List Nat} {s : Dive} {f : Frame} {outer : List Frame} :
    workOf next (s.leave f outer).free (s.leave f outer).stack < workOf next s.free (f :: outer) := by
  have hStack : ∀ free, workOf next free (s.leave f outer).stack = workOf next free outer := by
    intro free
    cases outer <;> rfl
  have hLe := workOf_le next (free_leave_le s f outer) outer
  have hPos := total_pos (work next s.free) f.rest
  rw [hStack]
  simp only [workOf]
  omega

/-- Go on until the first node is left; its depth, and the depths known then. -/
def run (next : Nat → List Nat) (s : Dive) : Nat × Depths :=
  match _h : s.stack with
  | [] => (0, s.known)
  | ⟨node, w :: rest, best, cut⟩ :: outer => run next (s.look next ⟨node, rest, best, cut⟩ outer w)
  | ⟨node, [], best, cut⟩ :: outer =>
    let after := s.leave ⟨node, [], best, cut⟩ outer
    if outer.isEmpty then (best + 1, after.known) else run next after
termination_by workOf next s.free s.stack
decreasing_by
  · rw [_h]
    exact workOf_look_lt (f := ⟨node, w :: rest, best, cut⟩) rfl
  · rw [_h]
    exact workOf_leave_lt

end Dive

def depth (next : Nat → List Nat) (size : Nat) (node : Nat) (known : Depths) : Nat × Depths :=
  match known.get? node with
  | some d => (d, known)
  | none => (Dive.begin next size node known).run next

def deepen (next : Nat → List Nat) (size : Nat) (state : Option (Nat × Nat) × Depths) (node : Nat) :
    Option (Nat × Nat) × Depths :=
  let (d, known) := depth next size node state.2
  let best := match state.1 with
    | some (b, e) => if e < d then some (node, d) else some (b, e)
    | none => some (node, d)
  (best, known)

def deepest (next : Nat → List Nat) (size : Nat) : Option (Nat × Nat) :=
  ((List.range size).foldl (deepen next size) (none, [])).1

end Search

namespace FileGraph

def depth (g : FileGraph) (file : Path) : Nat :=
  match g.indexOf? file with
  | some i => (Search.depth g.successors g.nodes.size i []).1
  | none => 0

def deepest (g : FileGraph) : Option (Path × Nat) :=
  (Search.deepest g.successors g.nodes.size).map fun (i, d) => (g.pathAt i, d)

end FileGraph

end ModuleAtlas
