import ModuleAtlas.Proofs.Program.DisjointSets
import Mathlib.Data.List.Induction
import Mathlib.Data.List.OfFn
import Mathlib.Order.Bounds.Basic

/-!
# Calls on disjoint sets

Roots are looked up and sets united in any order. The parents are seen here as a plain table of
numbers, in which nothing keeps a look-up from reading past the end or from going round for ever.
One round of a look-up moves the element under the parent of its parent. Every table that a round
leads to is again one of disjoint sets, in which the rest of the look-up has the same answer, so
that it goes on to smaller elements until it ends at the root.
-/

namespace ModuleAtlas.DisjointSets

open Relation

set_option autoImplicit false

variable {n : Nat} {s : DisjointSets n}

inductive Call (n : Nat) where
  | find (x : Fin n)
  | unite (a b : Fin n)

def Call.carryOut (s : DisjointSets n) : Call n → DisjointSets n
  | .find x => (s.find x).2
  | .unite a b => s.unite a b

def afterCalls (calls : List (Call n)) : DisjointSets n := calls.foldl Call.carryOut (singletons n)

theorem afterCalls_concat (calls : List (Call n)) (call : Call n) :
    afterCalls (calls ++ [call]) = call.carryOut (afterCalls calls) := by
  rw [afterCalls, List.foldl_append]
  rfl

section Table

def table (s : DisjointSets n) : List Nat := List.ofFn fun x => (s.above x).val

theorem length_table : s.table.length = n := List.length_ofFn

theorem getElem?_table (x : Fin n) : s.table[x.val]? = some (s.above x).val := by
  rw [table, List.getElem?_ofFn, dif_pos x.isLt]

theorem exists_of_getElem?_table {i p : Nat} (h : s.table[i]? = some p) :
    ∃ x : Fin n, x.val = i ∧ (s.above x).val = p := by
  obtain ⟨hi, -⟩ := List.getElem?_eq_some_iff.mp h
  rw [length_table] at hi
  exact ⟨⟨i, hi⟩, rfl, Option.some.inj ((getElem?_table ⟨i, hi⟩).symm.trans h)⟩

theorem table_singletons : (singletons n).table = List.range n := by
  apply List.ext_getElem
  · rw [length_table, List.length_range]
  · simp [table, singletons]

theorem table_link {child parent : Fin n} (h : parent ≤ child) :
    (s.link child parent h).table = s.table.set child parent := by
  apply List.ext_getElem?
  intro i
  by_cases hi : i < n
  · have hLink := getElem?_table (s := s.link child parent h) ⟨i, hi⟩
    have hOld := getElem?_table (s := s) ⟨i, hi⟩
    rw [above_link] at hLink
    rw [hLink, List.getElem?_set, length_table, hOld]
    by_cases hChild : child.val = i
    · simp [Fin.ext_iff, hChild, hi]
    · simp [Fin.ext_iff, hChild]
  · rw [List.getElem?_eq_none (by rw [length_table]; omega),
      List.getElem?_eq_none (by rw [List.length_set, length_table]; omega)]

/-- No parent is greater than its child. -/
def Descends (t : List Nat) : Prop := ∀ i p : Nat, t[i]? = some p → p ≤ i

theorem descends_table (s : DisjointSets n) : Descends s.table := by
  intro i p h
  obtain ⟨x, rfl, rfl⟩ := exists_of_getElem?_table h
  exact s.parent_le x

end Table

section Rounds

/-- One round of a look-up: the element has another parent, and goes under the parent of that. -/
inductive Round : List Nat × Nat → List Nat × Nat → Prop
  | halve {t : List Nat} {x p q : Nat} (hParent : t[x]? = some p) (hOther : p ≠ x) (hAbove : t[p]? = some q) :
      Round (t, x) (t.set x q, q)

abbrev Rounds : List Nat × Nat → List Nat × Nat → Prop := ReflTransGen Round

theorem find_of_above_eq {x : Fin n} (h : s.above x = x) : s.find x = (x, s) := by
  rw [find, dif_pos h]

/-- Put an element that has another parent under the parent of that. -/
def halved (s : DisjointSets n) (x : Fin n) : DisjointSets n :=
  s.link x (s.above (s.above x)) ((s.parent_le _).trans (s.parent_le x))

theorem find_halved {x : Fin n} (h : s.above x ≠ x) :
    (s.halved x).find (s.above (s.above x)) = s.find x := by
  rw [find.eq_def s x, dif_neg h]
  rfl

theorem round_iff {x : Fin n} {next : List Nat × Nat} : Round (s.table, x) next ↔
    s.above x ≠ x ∧ next = ((s.halved x).table, (s.above (s.above x)).val) := by
  constructor
  · rintro ⟨hParent, hOther, hAbove⟩
    rw [getElem?_table, Option.some.injEq] at hParent
    subst hParent
    rw [getElem?_table, Option.some.injEq] at hAbove
    subst hAbove
    exact ⟨fun hSame => hOther (congrArg Fin.val hSame), by rw [halved, table_link]⟩
  · rintro ⟨hOther, rfl⟩
    rw [halved, table_link]
    exact .halve (getElem?_table x) (fun hSame => hOther (Fin.ext hSame)) (getElem?_table _)

/-- Rounds lead to tables of sets in which the look-up goes on to the same answer. -/
theorem exists_of_rounds {x : Fin n} {now : List Nat × Nat} (h : Rounds (s.table, x.val) now) :
    ∃ (u : DisjointSets n) (y : Fin n), now = (u.table, y.val) ∧ u.find y = s.find x := by
  induction h with
  | refl => exact ⟨s, x, rfl, rfl⟩
  | tail _ hRound ih =>
    obtain ⟨u, y, rfl, hFind⟩ := ih
    obtain ⟨hOther, rfl⟩ := round_iff.mp hRound
    exact ⟨u.halved y, _, rfl, (find_halved hOther).trans hFind⟩

/-- A look-up is over, with its answer, or it goes on to a smaller element. -/
def Advances (answer : List Nat × Nat) (now : List Nat × Nat) : Prop :=
  (now = answer ∧ now.1[now.2]? = some now.2) ∨ ∃ next, Round now next ∧ next.2 < now.2

theorem advances_of_rounds {x : Fin n} {now : List Nat × Nat} (h : Rounds (s.table, x.val) now) :
    Advances ((s.find x).2.table, (s.find x).1.val) now := by
  obtain ⟨u, y, rfl, hFind⟩ := exists_of_rounds h
  by_cases hy : u.above y = y
  · rw [find_of_above_eq hy] at hFind
    rw [← hFind]
    exact .inl ⟨rfl, by rw [getElem?_table, hy]⟩
  · exact .inr ⟨_, round_iff.mpr ⟨hy, rfl⟩, halve_lt hy⟩

theorem rounds_find (s : DisjointSets n) (x : Fin n) :
    Rounds (s.table, x.val) ((s.find x).2.table, (s.find x).1.val) := by
  fun_induction find s x with
  | case1 s x h => exact .refl
  | case2 s x h ih => exact .head (round_iff.mpr ⟨h, rfl⟩) ih

end Rounds

section Unite

/-- The write that unites the sets of two roots: the greater one goes under the smaller one. -/
def united (t : List Nat) (ra rb : Nat) : List Nat := if ra = rb then t else t.set (max ra rb) (min ra rb)

theorem above_root (x : Fin n) : s.above (s.root x) = s.root x := by
  fun_induction root s x with
  | case1 x h => exact h
  | case2 x h ih => exact ih

theorem set_table_self {r : Fin n} (h : s.above r = r) : s.table.set r r = s.table := by
  apply List.ext_getElem?
  intro i
  rw [List.getElem?_set]
  split
  · rename_i hi
    rw [← hi, if_pos (by rw [length_table]; exact r.isLt), getElem?_table, h]
  · rfl

theorem table_unite (a b : Fin n) : (s.unite a b).table =
    united ((s.find a).2.find b).2.table (s.find a).1 ((s.find a).2.find b).1 := by
  simp only [unite]
  split
  case isTrue hLt =>
    have hLt : (s.find a).1.val < ((s.find a).2.find b).1.val := hLt
    rw [table_link, united, if_neg hLt.ne, max_eq_right hLt.le, min_eq_left hLt.le]
  case isFalse hLe =>
    have hLe : ((s.find a).2.find b).1.val ≤ (s.find a).1.val := not_lt.mp hLe
    rw [table_link, united]
    split
    case isTrue hSame =>
      rw [Fin.ext hSame]
      exact set_table_self (by rw [find_fst, ← root_find b, above_root])
    case isFalse => rw [max_eq_left hLe, min_eq_right hLe]

end Unite

section Together

/-- Steps to parents and back lead from one element to the other. -/
def Together (s : DisjointSets n) : Fin n → Fin n → Prop := EqvGen fun x y => s.above x = y

theorem together_root (x : Fin n) : s.Together x (s.root x) := by
  fun_induction root s x with
  | case1 x h => exact .refl x
  | case2 x h ih => exact .trans x (s.above x) _ (.rel x _ rfl) ih

theorem together_iff {x y : Fin n} : s.Together x y ↔ s.root x = s.root y := by
  constructor
  · apply root_eq_of_eqvGen
    rintro x y rfl
    exact (root_above x).symm
  · intro h
    exact (together_root x).trans _ _ _ (h ▸ (together_root y).symm _ _)

theorem isLeast_root (x : Fin n) : IsLeast {y | s.Together x y} (s.root x) := by
  refine ⟨together_root x, fun y hy => ?_⟩
  rw [together_iff.mp hy]
  exact root_le y

theorem joins_afterCalls (calls : List (Call n)) :
    (afterCalls calls).Joins fun a b => Call.unite a b ∈ calls := by
  induction calls using List.reverseRecOn with
  | nil => exact joins_singletons fun _ _ => List.not_mem_nil
  | append_singleton calls call ih =>
    rw [afterCalls_concat]
    cases call with
    | find x =>
      have hMem : ∀ a b, Call.unite a b ∈ calls ++ [.find x] ↔ Call.unite a b ∈ calls := by simp
      intro y z
      simp only [Call.carryOut, root_find, hMem]
      exact ih y z
    | unite c d =>
      have hMem : ∀ a b, Call.unite a b ∈ calls ++ [.unite c d] ↔ Call.unite a b ∈ calls ∨ (a = c ∧ b = d) := by simp
      simp only [hMem]
      exact ih.unite c d

end Together

/-- The table stands at some moment while a call is carried out. -/
inductive Passes (s : DisjointSets n) : Call n → List Nat → Prop
  | find {x : Fin n} {t : List Nat} {y : Nat} (h : Rounds (s.table, x.val) (t, y)) : Passes s (.find x) t
  | first {a b : Fin n} {t : List Nat} {y : Nat} (h : Rounds (s.table, a.val) (t, y)) : Passes s (.unite a b) t
  | second {a b : Fin n} {t : List Nat} {y : Nat} (h : Rounds ((s.find a).2.table, b.val) (t, y)) :
      Passes s (.unite a b) t
  | last {a b : Fin n} : Passes s (.unite a b)
      (united ((s.find a).2.find b).2.table (s.find a).1 ((s.find a).2.find b).1)

theorem Passes.exists_table {call : Call n} {t : List Nat} (h : s.Passes call t) :
    ∃ u : DisjointSets n, t = u.table := by
  have hRounds : ∀ {u : DisjointSets n} {x : Fin n} {y : Nat}, Rounds (u.table, x.val) (t, y) →
      ∃ u : DisjointSets n, t = u.table := by
    intro u x y hRounds
    obtain ⟨v, z, hNow, -⟩ := exists_of_rounds hRounds
    exact ⟨v, congrArg Prod.fst hNow⟩
  cases h with
  | find h => exact hRounds h
  | first h => exact hRounds h
  | second h => exact hRounds h
  | last => exact ⟨_, (table_unite _ _).symm⟩

/-- What holds after some calls and while the next one is carried out. -/
structure FindsLeast (calls : List (Call n)) : Prop where
  descends : ∀ call t, (afterCalls calls).Passes call t → t.length = n ∧ Descends t
  ends : ∀ x : Fin n, Rounds ((afterCalls calls).table, x.val)
    (((afterCalls calls).find x).2.table, ((afterCalls calls).find x).1.val)
  advances : ∀ (x : Fin n) now, Rounds ((afterCalls calls).table, x.val) now →
    Advances (((afterCalls calls).find x).2.table, ((afterCalls calls).find x).1.val) now
  unite : ∀ a b, ((afterCalls calls).unite a b).table =
    united (((afterCalls calls).find a).2.find b).2.table ((afterCalls calls).find a).1
      (((afterCalls calls).find a).2.find b).1
  find_keeps : ∀ x y z, ((afterCalls calls).find x).2.Together y z ↔ (afterCalls calls).Together y z
  find_least : ∀ x, IsLeast {y | (afterCalls calls).Together x y} ((afterCalls calls).find x).1
  together_iff : ∀ x y, (afterCalls calls).Together x y ↔ EqvGen (fun a b => Call.unite a b ∈ calls) x y

theorem calls_find_least (n : Nat) :
    (afterCalls (n := n) []).table = List.range n ∧ ∀ calls : List (Call n), FindsLeast calls := by
  refine ⟨table_singletons, fun calls => ?_⟩
  constructor
  case descends =>
    intro call t h
    obtain ⟨u, rfl⟩ := h.exists_table
    exact ⟨length_table, descends_table u⟩
  case ends => exact rounds_find _
  case advances => exact fun x now => advances_of_rounds
  case unite => exact table_unite
  case find_keeps => exact fun x y z => by rw [together_iff, together_iff, root_find, root_find]
  case find_least => exact fun x => find_fst (s := afterCalls calls) x ▸ isLeast_root x
  case together_iff => exact fun x y => together_iff.trans (joins_afterCalls calls x y)

end ModuleAtlas.DisjointSets
