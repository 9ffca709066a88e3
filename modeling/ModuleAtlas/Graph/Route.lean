import ModuleAtlas.Graph.Basic

/-!
# Shortest import chains

A breadth-first search links every node to the one it was first met from. A chain is read
off by following the links backwards from its end.
-/

namespace ModuleAtlas

set_option autoImplicit false

namespace Search

/-- Nodes that were met, each with the node it was met from, the last one first. -/
abbrev Links := List (Nat × Nat)

def Links.before? (links : Links) (v : Nat) : Option Nat := links.lookup v

structure Fringe where
  /-- Nodes to be expanded, the first one next. -/
  waiting : List Nat
  seen : Array Bool
  links : Links

namespace Fringe

def begin (size start : Nat) : Fringe :=
  ⟨[start], (Array.replicate size false).setIfInBounds start true, []⟩

/-- Was a node seen? There is nothing to see beyond the last node. -/
def isSeen (f : Fringe) (v : Nat) : Bool := f.seen.getD v true

def meet (node : Nat) (f : Fringe) (w : Nat) : Fringe :=
  if f.isSeen w then f
  else ⟨f.waiting ++ [w], f.seen.setIfInBounds w true, (w, node) :: f.links⟩

def expand (next : Nat → List Nat) (f : Fringe) (node : Nat) (rest : List Nat) : Fringe :=
  (next node).foldl (meet node) { f with waiting := rest }

def load (f : Fringe) : Nat := f.waiting.length + f.seen.count false

theorem load_meet (node : Nat) (f : Fringe) (w : Nat) : (f.meet node w).load = f.load := by
  unfold meet
  split
  · rfl
  · rename_i hSeen
    have hw : w < f.seen.size := by
      apply Classical.byContradiction
      intro hw
      simp [isSeen, Array.getD, hw] at hSeen
    have hFalse : f.seen[w] = false := by simpa [isSeen, Array.getD, hw] using hSeen
    have hPos : 0 < f.seen.count false := Array.count_pos_iff.mpr (hFalse ▸ Array.getElem_mem hw)
    have hCount : (f.seen.set w true).count false = f.seen.count false - 1 := by
      rw [Array.count_set, hFalse]
      rfl
    simp only [load, Array.setIfInBounds, dif_pos hw, hCount, List.length_append, List.length_singleton]
    omega

theorem load_foldl_meet (node : Nat) (ws : List Nat) (f : Fringe) :
    (ws.foldl (meet node) f).load = f.load := by
  induction ws generalizing f with
  | nil => rfl
  | cons w ws ih => rw [List.foldl_cons, ih, load_meet]

theorem load_expand_lt {next : Nat → List Nat} {f : Fringe} {node : Nat} {rest : List Nat}
    (h : f.waiting = node :: rest) : (f.expand next node rest).load < f.load := by
  rw [expand, load_foldl_meet]
  simp [load, h]

/-- The links at the moment when the goal is the first waiting node. -/
def search (next : Nat → List Nat) (goal : Nat) (f : Fringe) : Option Links :=
  match _h : f.waiting with
  | [] => none
  | node :: rest => if node = goal then some f.links else search next goal (f.expand next node rest)
termination_by f.load
decreasing_by exact load_expand_lt _h

end Fringe

/-- Follow the links from a node back to one that has none, in front of `chain`, if this takes
no more nodes than given. -/
def retraceWithin (links : Links) : Nat → Nat → List Nat → Option (List Nat)
  | 0, _, _ => none
  | nodes + 1, node, chain =>
    match links.before? node with
    | none => some (node :: chain)
    | some before => retraceWithin links nodes before (node :: chain)

/-- Follow the links from a node back to one that has none, in front of `chain`. A way with more
nodes than there are links and a start goes around a circle, and has no outcome. -/
def retrace (links : Links) (node : Nat) (chain : List Nat) : Option (List Nat) :=
  retraceWithin links (links.length + 1) node chain

def route (next : Nat → List Nat) (size start goal : Nat) : Option (List Nat) :=
  ((Fringe.begin size start).search next goal).bind fun links => retrace links goal []

end Search

namespace FileGraph

def route (g : FileGraph) (source target : Path) : Option (List Path) :=
  match g.indexOf? source, g.indexOf? target with
  | some a, some b => (Search.route g.successors g.nodes.size a b).map (·.map g.pathAt)
  | _, _ => none

end FileGraph

end ModuleAtlas
