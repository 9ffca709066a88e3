import ModuleAtlas.Path.Basic
import ModuleAtlas.Proofs.Path.Piece
import Mathlib.Tactic.Common

/-!
# The order of paths

Parts and lists of parts are in a linear order. Two paths compare as equal exactly if they
have the same parts.
-/

namespace ModuleAtlas

set_option autoImplicit false

open Std

namespace Part

instance : OrientedCmp cmp where
  eq_swap {a b} := by
    cases a <;> cases b <;> first | rfl | exact OrientedOrd.eq_swap

instance : TransCmp cmp where
  isLE_trans {a b c} hab hbc := by
    cases a <;> cases b <;> cases c <;>
      first | rfl | exact TransOrd.isLE_trans hab hbc | contradiction

instance : LawfulEqCmp cmp where
  compare_self {a} := by
    cases a <;> first | rfl | exact ReflOrd.compare_self
  eq_of_compare {a b} h := by
    cases a <;> cases b <;> first | rfl | contradiction | exact congrArg name (LawfulEqOrd.eq_of_compare h)

end Part

namespace Path

theorem eq_of_cmpParts {as bs : List Part} (h : cmpParts as bs = .eq) : as = bs := by
  fun_induction cmpParts as bs with
  | case1 => rfl
  | case2 | case3 => cases h
  | case4 a as b bs ih =>
    obtain ⟨hHead, hTail⟩ := Ordering.then_eq_eq.mp h
    rw [LawfulEqCmp.eq_of_compare hHead, ih hTail]

theorem cmpParts_self (as : List Part) : cmpParts as as = .eq := by
  induction as with
  | nil => rfl
  | cons a as ih =>
    have hHead : Part.cmp a a = .eq := ReflCmp.compare_self
    rw [cmpParts, hHead, Ordering.eq_then, ih]

theorem cmpParts_swap (as bs : List Part) : cmpParts as bs = (cmpParts bs as).swap := by
  fun_induction cmpParts as bs with
  | case1 | case2 | case3 => rfl
  | case4 a as b bs ih =>
    have hHead : Part.cmp a b = (Part.cmp b a).swap := OrientedCmp.eq_swap
    rw [cmpParts, Ordering.swap_then, ← ih, hHead]

theorem cmpParts_trans {as bs cs : List Part} (hab : cmpParts as bs = .lt) (hbc : cmpParts bs cs = .lt) :
    cmpParts as cs = .lt := by
  induction as generalizing bs cs with
  | nil =>
    cases cs with
    | nil => cases bs <;> cases hbc
    | cons c cs => rfl
  | cons a as ih =>
    cases bs with
    | nil => cases hab
    | cons b bs =>
      cases cs with
      | nil => cases hbc
      | cons c cs =>
        rw [cmpParts, Ordering.then_eq_lt] at hab hbc ⊢
        rcases hab with hab | ⟨hab, hasbs⟩
        · rcases hbc with hbc | ⟨hbc, -⟩
          · exact .inl (TransCmp.lt_trans hab hbc)
          · exact .inl (LawfulEqCmp.eq_of_compare hbc ▸ hab)
        · obtain rfl := LawfulEqCmp.eq_of_compare hab
          exact hbc.imp_right fun ⟨hbc, hbscs⟩ => ⟨hbc, ih hasbs hbscs⟩

theorem cmp_lt_trans {p q r : Path} (hpq : cmp p q = .lt) (hqr : cmp q r = .lt) : cmp p r = .lt :=
  cmpParts_trans hpq hqr

theorem cmp_eq_gt_iff {p q : Path} : cmp p q = .gt ↔ cmp q p = .lt := by
  rw [cmp, cmp, cmpParts_swap, Ordering.swap_eq_gt]

theorem cmp_eq_iff_same {p q : Path} : cmp p q = .eq ↔ p.same q = true := by
  rw [same, beq_iff_eq]
  constructor
  · exact eq_of_cmpParts
  · intro h
    rw [cmp, h, cmpParts_self]

theorem cmp_lt_irrefl (p : Path) : cmp p p ≠ .lt := by
  rw [cmp, cmpParts_self]
  decide

end Path

end ModuleAtlas
