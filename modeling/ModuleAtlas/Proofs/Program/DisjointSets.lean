import ModuleAtlas.Program.DisjointSets
import Mathlib.Data.Fin.Basic
import Mathlib.Logic.Relation
import Mathlib.Order.Fin.Basic
import Mathlib.Order.MinMax

/-!
# Roots of disjoint sets

The root of an element is found by going up to a parent as long as there is another one. It
is the only function that is constant along parents and fixes every element which is its own
parent; from this follows what looking up and uniting do to roots. Two elements have the same
root exactly if a chain of united pairs joins them.
-/

namespace ModuleAtlas.DisjointSets

open Relation

set_option autoImplicit false

variable {n : Nat} {s : DisjointSets n}

abbrev above (s : DisjointSets n) (x : Fin n) : Fin n := getElem s.parent x x.isLt

theorem above_lt {x : Fin n} (h : s.above x ≠ x) : s.above x < x :=
  lt_of_le_of_ne (s.parent_le x) h

def root (s : DisjointSets n) (x : Fin n) : Fin n :=
  if s.above x = x then x else s.root (s.above x)
termination_by x.val
decreasing_by exact above_lt ‹_›

theorem root_of_above_eq {x : Fin n} (h : s.above x = x) : s.root x = x := by
  rw [root, if_pos h]

theorem root_above (x : Fin n) : s.root (s.above x) = s.root x := by
  by_cases h : s.above x = x
  · rw [h]
  · rw [root.eq_def s x, if_neg h]

theorem root_le (x : Fin n) : s.root x ≤ x := by
  fun_induction root s x with
  | case1 x h => exact le_rfl
  | case2 x h ih => exact ih.trans (s.parent_le x)

theorem root_root (x : Fin n) : s.root (s.root x) = s.root x := by
  induction x using root.induct s with
  | case1 x h => rw [root_of_above_eq h, root_of_above_eq h]
  | case2 x h ih => rwa [root_above] at ih

theorem root_eq_of_fixed {rep : Fin n → Fin n} (hFixed : ∀ x, s.above x = x → rep x = x)
    (hAbove : ∀ x, rep (s.above x) = rep x) (x : Fin n) : s.root x = rep x := by
  fun_induction root s x with
  | case1 x h => exact (hFixed x h).symm
  | case2 x h ih => exact ih.trans (hAbove x)

theorem above_link (child parent x : Fin n) (h : parent ≤ child) :
    (s.link child parent h).above x = if child = x then parent else s.above x := by
  simp only [link, Fin.getElem_fin, Vector.getElem_set, Fin.ext_iff]

theorem root_link_of_root_eq {child parent : Fin n} (h : parent < child)
    (hRoot : s.root parent = s.root child) (x : Fin n) :
    (s.link child parent h.le).root x = s.root x := by
  apply root_eq_of_fixed
  · intro y hy
    rw [above_link] at hy
    split at hy
    · exact absurd (hy.trans (‹child = y›).symm) h.ne
    · exact root_of_above_eq hy
  · intro y
    rw [above_link]
    split
    · exact hRoot.trans (congrArg s.root ‹child = y›)
    · exact root_above y

theorem root_link_of_roots {child parent : Fin n} (h : parent ≤ child)
    (hChild : s.root child = child) (hParent : s.root parent = parent) (x : Fin n) :
    (s.link child parent h).root x = if s.root x = child then parent else s.root x := by
  revert x
  apply root_eq_of_fixed
  · intro y hy
    rw [above_link] at hy
    split at hy
    · obtain rfl : child = y := ‹_›
      rw [hChild, if_pos rfl, hy]
    · rw [root_of_above_eq hy, if_neg (Ne.symm ‹_›)]
  · intro y
    rw [above_link]
    split
    · obtain rfl : child = y := ‹_›
      rw [hChild, hParent, if_pos rfl, ite_self]
    · rw [root_above]

theorem halve_lt {x : Fin n} (h : s.above x ≠ x) : s.above (s.above x) < x :=
  lt_of_le_of_lt (s.parent_le _) (above_lt h)

theorem find_fst_and_root (s : DisjointSets n) (x : Fin n) :
    (s.find x).1 = s.root x ∧ ∀ y, (s.find x).2.root y = s.root y := by
  fun_induction find s x with
  | case1 s x h => exact ⟨(root_of_above_eq h).symm, fun _ => rfl⟩
  | case2 s x h ih =>
    -- the step to the parent's parent leaves every root as it is
    have hRoot := root_link_of_root_eq (halve_lt h) ((root_above _).trans (root_above x))
    obtain ⟨hFst, hSnd⟩ := ih
    refine ⟨?_, fun y => (hSnd y).trans (hRoot y)⟩
    rw [hFst, hRoot, root_above, root_above]

theorem find_fst (x : Fin n) : (s.find x).1 = s.root x := (find_fst_and_root s x).1

theorem root_find (x y : Fin n) : (s.find x).2.root y = s.root y := (find_fst_and_root s x).2 y

theorem root_unite (a b x : Fin n) : (s.unite a b).root x =
    if s.root x = s.root a ∨ s.root x = s.root b then min (s.root a) (s.root b) else s.root x := by
  simp only [unite, find_fst, root_find]
  split
  · rename_i hLt
    rw [root_link_of_roots hLt.le (by simp only [root_find, root_root])
      (by simp only [root_find, root_root]), min_eq_left hLt.le]
    simp only [root_find]
    grind
  · rename_i hLe
    rw [root_link_of_roots (not_lt.mp hLe) (by simp only [root_find, root_root])
      (by simp only [root_find, root_root]), min_eq_right (not_lt.mp hLe)]
    simp only [root_find]
    grind

theorem root_unite_eq_iff (a b x y : Fin n) : (s.unite a b).root x = (s.unite a b).root y ↔
    s.root x = s.root y ∨ (s.root x = s.root a ∧ s.root y = s.root b) ∨
      (s.root x = s.root b ∧ s.root y = s.root a) := by
  rw [root_unite, root_unite]
  rcases min_choice (s.root a) (s.root b) with hMin | hMin <;> rw [hMin] <;> grind

/-- Elements have the same root exactly if a chain of pairs of `r` joins them. -/
def Joins (s : DisjointSets n) (r : Fin n → Fin n → Prop) : Prop :=
  ∀ x y, s.root x = s.root y ↔ EqvGen r x y

variable {r : Fin n → Fin n → Prop}

theorem root_eq_of_eqvGen (hr : ∀ x y, r x y → s.root x = s.root y) {x y : Fin n} (h : EqvGen r x y) :
    s.root x = s.root y :=
  (eq_equivalence.comap s.root).eqvGen_iff.mp (EqvGen.mono hr x y h)

theorem joins_singletons (hr : ∀ x y, ¬ r x y) : (singletons n).Joins r := by
  have hRoot : ∀ x, (singletons n).root x = x := fun x => root_of_above_eq (by simp [singletons])
  intro x y
  constructor
  · rw [hRoot, hRoot]
    rintro rfl
    exact .refl x
  · exact root_eq_of_eqvGen fun x y hxy => absurd hxy (hr x y)

theorem Joins.unite (h : s.Joins r) (a b : Fin n) :
    (s.unite a b).Joins fun x y => r x y ∨ (x = a ∧ y = b) := by
  have hOld : ∀ {x y}, s.root x = s.root y → EqvGen (fun x y => r x y ∨ (x = a ∧ y = b)) x y :=
    fun hxy => EqvGen.mono (fun _ _ hr => .inl hr) _ _ ((h _ _).mp hxy)
  have hNew : EqvGen (fun x y => r x y ∨ (x = a ∧ y = b)) a b := .rel a b (.inr ⟨rfl, rfl⟩)
  intro x y
  constructor
  · intro hxy
    rcases (root_unite_eq_iff a b x y).mp hxy with hxy | ⟨hx, hy⟩ | ⟨hx, hy⟩
    · exact hOld hxy
    · exact ((hOld hx).trans _ _ _ hNew).trans _ _ _ (hOld hy.symm)
    · exact ((hOld hx).trans _ _ _ (hNew.symm _ _)).trans _ _ _ (hOld hy.symm)
  · apply root_eq_of_eqvGen
    intro x y hxy
    rw [root_unite_eq_iff]
    rcases hxy with hxy | ⟨rfl, rfl⟩
    · exact .inl ((h x y).mpr (.rel x y hxy))
    · exact .inr (.inl ⟨rfl, rfl⟩)

end ModuleAtlas.DisjointSets
