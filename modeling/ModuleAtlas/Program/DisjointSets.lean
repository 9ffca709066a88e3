/-!
# Disjoint sets

A forest over `0, …, n - 1` in which no parent is greater than its child. The root of a set
is its least element. Looking a root up shortens the chain it follows by half.
-/

namespace ModuleAtlas

set_option autoImplicit false

structure DisjointSets (n : Nat) where
  parent : Vector (Fin n) n
  parent_le : ∀ i : Fin n, parent[i] ≤ i

namespace DisjointSets

variable {n : Nat}

def singletons (n : Nat) : DisjointSets n where
  parent := Vector.ofFn id
  parent_le i := by simp

def link (s : DisjointSets n) (child parent : Fin n) (h : parent ≤ child) : DisjointSets n where
  parent := s.parent.set child parent
  parent_le i := by
    by_cases hi : child = i
    · subst hi
      simpa using h
    · have hne : (child : Nat) ≠ i := fun h => hi (Fin.ext h)
      simpa [Vector.getElem_set_ne _ _ hne] using s.parent_le i

/-- The root of an element, and the sets with a shorter way to it. -/
def find (s : DisjointSets n) (x : Fin n) : Fin n × DisjointSets n :=
  if h : s.parent[x] = x then (x, s)
  else
    find (s.link x s.parent[s.parent[x]]
      (Fin.le_trans (s.parent_le s.parent[x]) (s.parent_le x))) s.parent[s.parent[x]]
termination_by x.val
decreasing_by
  have h₁ := s.parent_le x
  have h₂ := s.parent_le s.parent[x]
  have h₃ : s.parent[x].val ≠ x.val := fun e => h (Fin.ext e)
  simp only [Fin.le_def] at h₁ h₂
  omega

def unite (s : DisjointSets n) (a b : Fin n) : DisjointSets n :=
  let (ra, s) := s.find a
  let (rb, s) := s.find b
  if h : ra < rb then s.link rb ra (Fin.le_of_lt h)
  else s.link ra rb (Fin.not_lt.mp h)

end DisjointSets

end ModuleAtlas
