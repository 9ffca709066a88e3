import ModuleAtlas.Graph.Basic

/-!
# What a file reaches

The files that a file imports, or that import it, directly or through others. Nodes are
listed when they are first seen; a bound limits the number of steps along the way that is
taken, which need not be the shortest one.
-/

namespace ModuleAtlas

set_option autoImplicit false

namespace Search

/-- Nodes that are waiting and nodes seen so far, each with the number of steps to it, last first. -/
structure Frontier where
  waiting : List (Nat × Nat)
  seen : List (Nat × Nat)

def Frontier.begin (start : Nat) : Frontier := ⟨[(start, 0)], [(start, 0)]⟩

def Frontier.see (depth : Nat) (f : Frontier) (next : Nat) : Frontier :=
  if f.seen.any (·.1 == next) then f else ⟨(next, depth) :: f.waiting, (next, depth) :: f.seen⟩

def follow (next : Nat → List Nat) (limit : Option Nat) : Nat → Frontier → Frontier
  | 0, f => f
  | fuel + 1, f =>
    match f.waiting with
    | [] => f
    | (node, depth) :: rest =>
      if limit.any (· ≤ depth) then follow next limit fuel ⟨rest, f.seen⟩
      else follow next limit fuel ((next node).reverse.foldl (Frontier.see (depth + 1)) ⟨rest, f.seen⟩)

def met (next : Nat → List Nat) (size : Nat) (limit : Option Nat) (start : Nat) : List (Nat × Nat) :=
  (follow next limit (size + 1) (.begin start)).seen.reverse

def reached (next : Nat → List Nat) (size : Nat) (limit : Option Nat) (start : Nat) : List Nat :=
  ((met next size limit start).drop 1).map Prod.fst

end Search

namespace FileGraph

def dependencies (g : FileGraph) (file : Path) (limit : Option Nat) : List Path :=
  match g.indexOf? file with
  | some i => (Search.reached g.successors g.nodes.size limit i).map g.pathAt
  | none => []

def dependents (g : FileGraph) (file : Path) (limit : Option Nat) : List Path :=
  match g.indexOf? file with
  | some i => (Search.reached g.predecessors g.nodes.size limit i).map g.pathAt
  | none => []

end FileGraph

end ModuleAtlas
