import Mathlib.Data.List.Chain
import Mathlib.Data.List.Nodup
import Mathlib.Data.List.Perm.Subperm
import Mathlib.Logic.Relation
import Mathlib.Order.Bounds.Basic

/-!
# Walks along a relation

Walks are counted by their steps. The distance of two nodes is the least number of steps
between them.
-/

namespace ModuleAtlas.Walk

set_option autoImplicit false

inductive Steps (r : Nat → Nat → Prop) : Nat → Nat → Nat → Prop where
  | stay (v : Nat) : Steps r 0 v v
  | on {n u v w : Nat} (h : Steps r n u v) (hvw : r v w) : Steps r (n + 1) u w

def Distance (r : Nat → Nat → Prop) (n v w : Nat) : Prop := IsLeast {m | Steps r m v w} n

variable {r : Nat → Nat → Prop}

theorem Steps.from {n u v w : Nat} (huv : r u v) (h : Steps r n v w) : Steps r (n + 1) u w := by
  induction h with
  | stay v => exact .on (.stay u) huv
  | on _ hvw ih => exact .on (ih huv) hvw

theorem Steps.flip {n v w : Nat} (h : Steps r n v w) : Steps (fun a b => r b a) n w v := by
  induction h with
  | stay v => exact .stay v
  | on _ hvw ih => exact Steps.from hvw ih

theorem steps_flip {n v w : Nat} : Steps (fun a b => r b a) n w v ↔ Steps r n v w :=
  ⟨Steps.flip, Steps.flip⟩

theorem distance_flip {n v w : Nat} : Distance (fun a b => r b a) n w v ↔ Distance r n v w := by
  simp only [Distance, steps_flip]

theorem exists_steps_iff {v w : Nat} : (∃ n, Steps r n v w) ↔ Relation.ReflTransGen r v w := by
  constructor
  · rintro ⟨n, h⟩
    induction h with
    | stay v => exact .refl
    | on _ hvw ih => exact ih.tail hvw
  · intro h
    induction h with
    | refl => exact ⟨0, .stay v⟩
    | tail _ hvw ih =>
      obtain ⟨n, hn⟩ := ih
      exact ⟨n + 1, .on hn hvw⟩

/-- Walks of at most `k` steps from `v` to one and the same node are equally long. -/
def EvenWithin (r : Nat → Nat → Prop) (k v : Nat) : Prop :=
  ∀ w m n, Steps r m v w → Steps r n v w → m ≤ k → n ≤ k → m = n

theorem Distance.step_back {n v w : Nat} (h : Distance r (n + 1) v w) :
    ∃ u, Distance r n v u ∧ r u w := by
  obtain ⟨hWalk, hLeast⟩ := h
  cases hWalk with
  | @on _ _ u _ hu huw =>
    refine ⟨u, ⟨hu, ?_⟩, huw⟩
    intro m hm
    exact Nat.le_of_succ_le_succ (hLeast (Steps.on hm huw))

theorem Steps.layer_le {layer : Nat → Nat} (hLayer : ∀ v w, r v w → layer w ≤ layer v + 1)
    {n v w : Nat} (h : Steps r n v w) : layer w ≤ layer v + n := by
  induction h with
  | stay v => exact Nat.le_refl _
  | on _ hvw ih =>
    have hStep := hLayer _ _ hvw
    omega

/-- A trail ends at one node and begins at the other: a step from the one to the other closes it. -/
def Closes (c : List Nat) (v w : Nat) : Prop := c.getLast? = some v ∧ c.head? = some w

/-- Distinct nodes with a step from each to the next and from the last to the first. -/
structure Loop (r : Nat → Nat → Prop) (c : List Nat) : Prop where
  ne_nil : c ≠ []
  nodup : c.Nodup
  linked : c.IsChain r
  closed : ∀ v w, Closes c v w → r v w

def Kept (r : Nat → Nat → Prop) (cs : List (List Nat)) (v w : Nat) : Prop :=
  r v w ∧ ∀ c ∈ cs, ¬ Closes c v w

theorem reflTransGen_of_chain {c : List Nat} (h : c.IsChain r) {v w : Nat} (hv : c.head? = some v)
    (hw : c.getLast? = some w) : Relation.ReflTransGen r v w := by
  induction c generalizing v with
  | nil => cases hv
  | cons u c ih =>
    obtain rfl : u = v := by simpa using hv
    cases c with
    | nil =>
      obtain rfl : u = w := by simpa using hw
      exact .refl
    | cons x c =>
      rw [List.isChain_cons_cons] at h
      rw [List.getLast?_cons_cons] at hw
      exact .head h.1 (ih h.2 rfl hw)

theorem Loop.exists_transGen {c : List Nat} (h : Loop r c) : ∃ v, Relation.TransGen r v v := by
  have hHead := List.head?_eq_some_head h.ne_nil
  have hLast := List.getLast?_eq_some_getLast h.ne_nil
  exact ⟨_, .tail' (reflTransGen_of_chain h.linked hHead hLast) (h.closed _ _ ⟨hLast, hHead⟩)⟩

theorem not_transGen_of_acc {v : Nat} (h : Acc (fun w v => r v w) v) : ¬ Relation.TransGen r v v := by
  induction h with
  | intro v _ ih =>
    intro hv
    obtain ⟨w, hvw, hwv⟩ := Relation.TransGen.head'_iff.mp hv
    exact ih w hvw (.tail' hwv hvw)

theorem length_le_of_nodup {vs : List Nat} {size : Nat} (h : vs.Nodup) (hvs : ∀ v ∈ vs, v < size) :
    vs.length ≤ size := by
  have hSubset : vs ⊆ List.range size := fun v hv => List.mem_range.mpr (hvs v hv)
  simpa using (List.subperm_of_subset h hSubset).length_le

end ModuleAtlas.Walk
