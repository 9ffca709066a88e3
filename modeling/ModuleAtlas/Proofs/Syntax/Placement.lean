import ModuleAtlas.Proofs.Syntax.Nodes
import Mathlib.Tactic.Common

/-!
# Where the nodes of a well-formed tree stand

Every node of a well-formed tree stands inside those above it, and a child ends before the next
one starts.
-/

namespace ModuleAtlas.Node

set_option autoImplicit false

/-- The node stands inside another one. -/
structure Inside (m n : Node) : Prop where
  start_le : n.start ≤ m.start
  proper : m.start ≤ m.stop
  stop_le : m.stop ≤ n.stop

section Placed

variable {lo hi : Nat} {c : Node} {cs : List Node}

theorem Placed.le (h : Placed lo hi cs) : lo ≤ hi := by
  induction cs generalizing lo with
  | nil => exact h
  | cons c cs ih => exact Nat.le_trans (Nat.le_trans h.1 h.2.1) (ih h.2.2)

theorem Placed.bounds (h : Placed lo hi cs) (hc : c ∈ cs) :
    lo ≤ c.start ∧ c.start ≤ c.stop ∧ c.stop ≤ hi := by
  induction cs generalizing lo with
  | nil => cases hc
  | cons d cs ih =>
    rcases List.mem_cons.mp hc with rfl | hc
    · exact ⟨h.1, h.2.1, h.2.2.le⟩
    · obtain ⟨hStart, hProper, hStop⟩ := ih h.2.2 hc
      exact ⟨Nat.le_trans (Nat.le_trans h.1 h.2.1) hStart, hProper, hStop⟩

theorem Placed.pairwise (h : Placed lo hi cs) : cs.Pairwise fun c d => c.stop ≤ d.start := by
  induction cs generalizing lo with
  | nil => exact .nil
  | cons c cs ih => exact .cons (fun d hd => (h.2.2.bounds hd).1) (ih h.2.2)

end Placed

section WellFormed

variable {n m : Node}

theorem wellFormedList_iff {cs : List Node} : WellFormedList cs ↔ ∀ c ∈ cs, c.WellFormed := by
  induction cs with
  | nil => simp [WellFormedList]
  | cons c cs ih => simp [WellFormedList, ih]

theorem wellFormed_iff : n.WellFormed ↔
    Placed n.start n.stop n.children ∧ ∀ c ∈ n.children, c.WellFormed := by
  cases n with
  | leaf k r s t => simp [WellFormed, Placed, children, start, stop]
  | branch k r s e cs => rw [WellFormed, wellFormedList_iff]; rfl

theorem WellFormed.of_child (h : n.WellFormed) (hm : m ∈ n.children) : m.WellFormed :=
  (wellFormed_iff.mp h).2 m hm

theorem WellFormed.inside_of_child (h : n.WellFormed) (hm : m ∈ n.children) : m.Inside n := by
  obtain ⟨hStart, hProper, hStop⟩ := (wellFormed_iff.mp h).1.bounds hm
  exact ⟨hStart, hProper, hStop⟩

theorem WellFormed.inside_self (h : n.WellFormed) : n.Inside n :=
  ⟨Nat.le_refl _, (wellFormed_iff.mp h).1.le, Nat.le_refl _⟩

theorem Inside.trans {k : Node} (h : k.Inside m) (h' : m.Inside n) : k.Inside n :=
  ⟨Nat.le_trans h'.start_le h.start_le, h.proper, Nat.le_trans h.stop_le h'.stop_le⟩

mutual

theorem WellFormed.below (n : Node) (h : n.WellFormed) (hm : m ∈ n.nodes) : m.WellFormed ∧ m.Inside n := by
  cases n with
  | leaf k r s t =>
    rw [List.mem_singleton.mp hm]
    exact ⟨h, h.inside_self⟩
  | branch k r s e cs =>
    rcases List.mem_cons.mp hm with rfl | hm
    · exact ⟨h, h.inside_self⟩
    · obtain ⟨hm, c, hc, hInside⟩ := WellFormed.below_one cs h.2 hm
      exact ⟨hm, hInside.trans (h.inside_of_child hc)⟩

theorem WellFormed.below_one (cs : List Node) (h : WellFormedList cs) (hm : m ∈ nodesAll cs) :
    m.WellFormed ∧ ∃ c ∈ cs, m.Inside c := by
  cases cs with
  | nil => cases hm
  | cons c cs =>
    rcases List.mem_append.mp hm with hm | hm
    · obtain ⟨hm, hInside⟩ := WellFormed.below c h.1 hm
      exact ⟨hm, c, List.mem_cons_self, hInside⟩
    · obtain ⟨hm, d, hd, hInside⟩ := WellFormed.below_one cs h.2 hm
      exact ⟨hm, d, List.mem_cons_of_mem _ hd, hInside⟩

end

theorem WellFormed.of_mem (h : n.WellFormed) (hm : m ∈ n.nodes) : m.WellFormed :=
  (WellFormed.below n h hm).1

theorem WellFormed.inside (h : n.WellFormed) (hm : m ∈ n.nodes) : m.Inside n :=
  (WellFormed.below n h hm).2

theorem WellFormed.pairwise_children (h : n.WellFormed) :
    n.children.Pairwise fun c d => c.stop ≤ d.start :=
  (wellFormed_iff.mp h).1.pairwise

end WellFormed

section Decision

def decidablePlaced (lo hi : Nat) : (cs : List Node) → Decidable (Placed lo hi cs)
  | [] => inferInstanceAs (Decidable (lo ≤ hi))
  | c :: rest =>
    have := decidablePlaced c.stop hi rest
    inferInstanceAs (Decidable (lo ≤ c.start ∧ c.start ≤ c.stop ∧ Placed c.stop hi rest))

mutual

def decidableWellFormed : (n : Node) → Decidable n.WellFormed
  | .leaf _ _ _ _ => .isTrue trivial
  | .branch _ _ s e cs => @instDecidableAnd _ _ (decidablePlaced s e cs) (decidableWellFormedList cs)

def decidableWellFormedList : (cs : List Node) → Decidable (WellFormedList cs)
  | [] => .isTrue trivial
  | c :: rest => @instDecidableAnd _ _ (decidableWellFormed c) (decidableWellFormedList rest)

end

instance (n : Node) : Decidable n.WellFormed := n.decidableWellFormed

end Decision

end ModuleAtlas.Node
