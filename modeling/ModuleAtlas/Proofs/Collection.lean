import ModuleAtlas.Collection
import Mathlib.Data.List.Induction
import Mathlib.Data.List.Nodup
import Mathlib.Data.List.Sort
import Mathlib.Data.String.Basic
import Mathlib.Tactic.Common

/-!
# What sets and tables hold

A set has the elements of the list it is made from, each once and in strictly increasing order.
`firstSeen` lists what occurs, each element once, in the order in which the elements come up
first. A table answers with what was put last under a key.
-/

namespace ModuleAtlas

set_option autoImplicit false

namespace Text

section DropRepeats

variable {α : Type} [BEq α] [LawfulBEq α]

theorem mem_dropRepeats {a : α} {xs : List α} : a ∈ dropRepeats xs ↔ a ∈ xs := by
  fun_induction dropRepeats xs with
  | case1 => exact Iff.rfl
  | case2 b => exact Iff.rfl
  | case3 b c rest h ih =>
    rw [ih, eq_of_beq h]
    simp
  | case4 b c rest h ih => simp only [List.mem_cons] at ih ⊢; rw [ih]

theorem pairwise_dropRepeats [PartialOrder α] {xs : List α} (h : xs.Pairwise (· ≤ ·)) :
    (dropRepeats xs).Pairwise (· < ·) := by
  fun_induction dropRepeats xs with
  | case1 => exact .nil
  | case2 b => exact List.pairwise_singleton _ b
  | case3 b c rest hbc ih => exact ih h.of_cons
  | case4 b c rest hbc ih =>
    refine List.pairwise_cons.mpr ⟨?_, ih h.of_cons⟩
    intro d hd
    have hle : b ≤ c := List.rel_of_pairwise_cons h List.mem_cons_self
    have hlt : b < c := lt_of_le_of_ne hle (by simpa using hbc)
    rcases List.mem_cons.mp (mem_dropRepeats.mp hd) with rfl | hd
    · exact hlt
    · exact lt_of_lt_of_le hlt (List.rel_of_pairwise_cons h.of_cons hd)

end DropRepeats

theorem pairwise_sorted {α : Type} [LinearOrder α] (xs : List α) :
    (dropRepeats (xs.mergeSort fun a b => decide (a ≤ b))).Pairwise (· < ·) := by
  apply pairwise_dropRepeats
  have hSorted := @List.pairwise_mergeSort α (fun a b => decide (a ≤ b))
    (fun a b c hab hbc => by simp only [decide_eq_true_eq] at *; exact hab.trans hbc)
    (fun a b => by simpa using le_total a b) xs
  simpa using hSorted

theorem mem_setOf {text : String} {texts : List String} : text ∈ setOf texts ↔ text ∈ texts := by
  simp [setOf, mem_dropRepeats]

theorem setOf_pairwise (texts : List String) : (setOf texts).Pairwise (· < ·) := pairwise_sorted texts


section FirstSeen

variable {α : Type} [BEq α] [LawfulBEq α]

structure FirstSeen (xs ys : List α) : Prop where
  nodup : ys.Nodup
  mem_iff : ∀ a, a ∈ ys ↔ a ∈ xs
  ordered : ys.Pairwise fun a b => xs.idxOf a < xs.idxOf b

theorem FirstSeen.ordered_concat {xs ys : List α} (h : FirstSeen xs ys) (x : α) :
    ys.Pairwise fun a b => (xs ++ [x]).idxOf a < (xs ++ [x]).idxOf b := by
  refine h.ordered.imp_of_mem fun {a b} ha hb hab => ?_
  rwa [List.idxOf_append_of_mem ((h.mem_iff a).mp ha), List.idxOf_append_of_mem ((h.mem_iff b).mp hb)]

theorem FirstSeen.pass {xs ys : List α} {x : α} (h : FirstSeen xs ys) (hx : x ∈ ys) :
    FirstSeen (xs ++ [x]) ys where
  nodup := h.nodup
  mem_iff a := by
    have hMem := h.mem_iff a
    grind
  ordered := h.ordered_concat x

theorem FirstSeen.add {xs ys : List α} {x : α} (h : FirstSeen xs ys) (hx : x ∉ ys) :
    FirstSeen (xs ++ [x]) (ys ++ [x]) where
  nodup := List.concat_eq_append ▸ h.nodup.concat hx
  mem_iff a := by rw [List.mem_append, List.mem_append, h.mem_iff]
  ordered := by
    have hNew : x ∉ xs := fun hMem => hx ((h.mem_iff x).mpr hMem)
    have hLast : (xs ++ [x]).idxOf x = xs.length := by
      rw [List.idxOf_append_of_notMem hNew, List.idxOf_cons_self, Nat.add_zero]
    refine List.pairwise_append.mpr ⟨h.ordered_concat x, List.pairwise_singleton _ x, fun a ha b hb => ?_⟩
    have hOld := (h.mem_iff a).mp ha
    rw [List.mem_singleton.mp hb, hLast, List.idxOf_append_of_mem hOld]
    exact List.idxOf_lt_length_iff.mpr hOld

theorem firstSeen_concat (xs : List α) (x : α) :
    firstSeen (xs ++ [x]) =
      if (firstSeen xs).contains x then firstSeen xs else firstSeen xs ++ [x] := by
  simp [firstSeen]

theorem firstSeen_spec (xs : List α) : FirstSeen xs (firstSeen xs) := by
  -- the last element is looked at last, so the induction goes from the end
  induction xs using List.reverseRecOn with
  | nil => exact ⟨.nil, fun _ => Iff.rfl, .nil⟩
  | append_singleton xs x ih =>
    rw [firstSeen_concat]
    split
    case isTrue hx => exact ih.pass (by simpa using hx)
    case isFalse hx => exact ih.add (by simpa using hx)

theorem firstSeen_eq_self {xs : List α} (h : xs.Nodup) : firstSeen xs = xs := by
  induction xs using List.reverseRecOn with
  | nil => rfl
  | append_singleton xs x ih =>
    obtain ⟨hxs, -, hx⟩ := List.nodup_append.mp h
    have hNew : x ∉ xs := fun hMem => hx x hMem x (List.mem_singleton_self x) rfl
    rw [firstSeen_concat, ih hxs, if_neg (by simpa using hNew)]

theorem firstSeen_append (xs ys : List α) : firstSeen (firstSeen xs ++ ys) = firstSeen (xs ++ ys) := by
  induction ys using List.reverseRecOn with
  | nil => rw [List.append_nil, List.append_nil, firstSeen_eq_self (firstSeen_spec xs).nodup]
  | append_singleton ys y ih =>
    rw [← List.append_assoc, ← List.append_assoc, firstSeen_concat, firstSeen_concat, ih]

section

variable {β : Type}

theorem firstSeen_filterMap [BEq β] [LawfulBEq β] (k : β → Option α) (xs : List β) :
    firstSeen ((firstSeen xs).filterMap k) = firstSeen (xs.filterMap k) := by
  induction xs using List.reverseRecOn with
  | nil => rfl
  | append_singleton xs x ih =>
    rw [firstSeen_concat, List.filterMap_append, ← firstSeen_append, ← ih, firstSeen_append]
    split
    case isFalse => rw [List.filterMap_append]
    case isTrue hx =>
      cases hk : k x with
      | none => rw [List.filterMap_cons_none hk, List.filterMap_nil, List.append_nil]
      | some a =>
        have ha : a ∈ firstSeen ((firstSeen xs).filterMap k) :=
          ((firstSeen_spec _).mem_iff a).mpr (List.mem_filterMap.mpr ⟨x, by simpa using hx, hk⟩)
        rw [List.filterMap_cons_some hk, List.filterMap_nil, firstSeen_concat, if_pos (by simpa using ha)]

/-- What is seen first is so because it stands somewhere ahead of all the places of the other. -/
theorem firstSeen_ahead {r : β → β → Prop} (k : β → Option α) {xs : List β} (h : xs.Pairwise r) :
    (firstSeen (xs.filterMap k)).Pairwise fun a b =>
      ∃ x ∈ xs, k x = some a ∧ ∀ y ∈ xs, k y = some b → r x y := by
  induction xs using List.reverseRecOn with
  | nil => exact .nil
  | append_singleton xs z ih =>
    obtain ⟨hxs, -, hLast⟩ := List.pairwise_append.mp h
    have hEnd : ∀ x ∈ xs, r x z := fun x hx => hLast x hx z (List.mem_singleton_self z)
    have hOld : (firstSeen (xs.filterMap k)).Pairwise fun a b =>
        ∃ x ∈ xs ++ [z], k x = some a ∧ ∀ y ∈ xs ++ [z], k y = some b → r x y := by
      refine (ih hxs).imp fun ⟨x, hx, ha, hAhead⟩ => ⟨x, List.mem_append_left _ hx, ha, fun y hy hb => ?_⟩
      rcases List.mem_append.mp hy with hy | hy
      · exact hAhead y hy hb
      · rw [List.mem_singleton.mp hy]
        exact hEnd x hx
    rw [List.filterMap_append]
    cases hk : k z with
    | none => rwa [List.filterMap_cons_none hk, List.filterMap_nil, List.append_nil]
    | some c =>
      rw [List.filterMap_cons_some hk, List.filterMap_nil, firstSeen_concat]
      split
      case isTrue => exact hOld
      case isFalse hc =>
        refine List.pairwise_append.mpr ⟨hOld, List.pairwise_singleton _ c, fun a ha b hb => ?_⟩
        obtain ⟨x, hx, hxa⟩ := List.mem_filterMap.mp (((firstSeen_spec _).mem_iff a).mp ha)
        refine ⟨x, List.mem_append_left _ hx, hxa, fun y hy hyb => ?_⟩
        rw [List.mem_singleton.mp hb] at hyb
        rcases List.mem_append.mp hy with hy | hy
        · have hSeen := ((firstSeen_spec _).mem_iff c).mpr (List.mem_filterMap.mpr ⟨y, hy, hyb⟩)
          exact absurd (by simpa using hSeen) hc
        · rw [List.mem_singleton.mp hy]
          exact hEnd x hx

end

end FirstSeen

end Text

theorem insertInOrder_perm {α : Type} (le : α → α → Bool) (a : α) (xs : List α) :
    (insertInOrder le a xs).Perm (a :: xs) := by
  induction xs with
  | nil => exact .refl _
  | cons b rest ih =>
    rw [insertInOrder]
    split
    · exact .refl _
    · exact (ih.cons b).trans (.swap a b rest)

theorem inOrder_perm {α : Type} (le : α → α → Bool) (xs : List α) : (inOrder le xs).Perm xs := by
  induction xs with
  | nil => exact .refl _
  | cons a xs ih => exact (insertInOrder_perm le a _).trans (ih.cons a)

namespace Table

/-- Keys are the same that agree in what `key` takes from them. -/
def Keyed {κ γ : Type} (same : κ → κ → Bool) (key : κ → γ) : Prop :=
  ∀ a b, same a b = true ↔ key a = key b

theorem keyed_beq {κ : Type} [BEq κ] [LawfulBEq κ] : Keyed (fun a b : κ => a == b) id :=
  fun _ _ => beq_iff_eq

section

variable {κ υ γ : Type} {same : κ → κ → Bool} {key : κ → γ} (hSame : Keyed same key)

include hSame

theorem value?_congr (t : Table κ υ) {k l : κ} (h : same k l = true) :
    t.value? same k = t.value? same l := by
  have hKey := (hSame _ _).mp h
  have hAlike : ∀ a, same a k = same a l := fun a => by rw [Bool.eq_iff_iff, hSame a k, hSame a l, hKey]
  simp only [value?, hAlike]

theorem value?_alter (t : Table κ υ) (k : κ) (f : Option υ → υ) (l : κ) :
    (t.alter same k f).value? same l =
      if same k l = true then some (f (t.value? same k)) else t.value? same l := by
  induction t with
  | nil =>
    cases hkl : same k l <;> simp [alter, value?, hkl]
  | cons e rest ih =>
    have hTrans : same e.1 k = true → same e.1 l = same k l := by
      intro hek
      rw [Bool.eq_iff_iff, hSame e.1 l, hSame k l, (hSame _ _).mp hek]
    rw [alter]
    split
    · rename_i hek
      cases hkl : same k l <;> simp [value?, hek, hTrans hek, hkl]
    · rename_i hek
      simp only [value?, List.find?_cons, Bool.not_eq_true] at ih hek ⊢
      rw [hek]
      cases hel : same e.1 l with
      | false => simpa using ih
      | true =>
        have hkl : same k l = false := by
          rw [← Bool.not_eq_true, hSame k l, ← (hSame _ _).mp hel, eq_comm, ← hSame e.1 k, hek]
          decide
        simp [hkl]

theorem value?_foldl_alter {α : Type} (add : υ → α → υ) (start : υ) (items : List (κ × α)) (t : Table κ υ)
    (k : κ) :
    (items.foldl (fun t item => t.alter same item.1 fun old => add (old.getD start) item.2) t).value? same k =
      if items.any (same ·.1 k) then
        some (((items.filter (same ·.1 k)).map Prod.snd).foldl add ((t.value? same k).getD start))
      else t.value? same k := by
  induction items generalizing t with
  | nil => rfl
  | cons item items ih =>
    rw [List.foldl_cons, ih, value?_alter hSame, List.any_cons, List.filter_cons]
    cases hk : same item.1 k with
    | false => rw [if_neg Bool.false_ne_true, if_neg Bool.false_ne_true, Bool.false_or]
    | true =>
      rw [value?_congr hSame t hk]
      cases hAny : items.any (same ·.1 k) with
      | true => simp
      | false =>
        have hNone : items.filter (same ·.1 k) = [] := by
          rw [List.filter_eq_nil_iff]
          simpa using hAny
        simp [hNone]

/-- A gathered table has what was added to a key, in the order of the items. -/
theorem value?_gather {α : Type} (add : υ → α → υ) (start : υ) (items : List (κ × α)) (k : κ) :
    (gather same add start items).value? same k =
      if items.any (same ·.1 k) then some (((items.filter (same ·.1 k)).map Prod.snd).foldl add start)
      else none :=
  value?_foldl_alter hSame add start items [] k

theorem getD_value?_gather {α : Type} (add : υ → α → υ) (start : υ) (items : List (κ × α)) (k : κ) :
    ((gather same add start items).value? same k).getD start =
      ((items.filter (same ·.1 k)).map Prod.snd).foldl add start := by
  rw [value?_gather hSame]
  split
  · rfl
  · rename_i hNone
    have hEmpty : items.filter (same ·.1 k) = [] := by
      rw [List.filter_eq_nil_iff]
      simpa using hNone
    rw [hEmpty]
    rfl

theorem value?_put (t : Table κ υ) (k : κ) (v : υ) (l : κ) :
    (t.put same k v).value? same l = if same k l = true then some v else t.value? same l :=
  value?_alter hSame t k _ l

end

section

variable {κ υ : Type} {same : κ → κ → Bool}

theorem mem_of_value? {t : Table κ υ} {k : κ} {v : υ} (h : t.value? same k = some v) :
    ∃ l, (l, v) ∈ t ∧ same l k = true := by
  obtain ⟨e, he, rfl⟩ := Option.map_eq_some_iff.mp h
  have hKey := List.find?_some he
  exact ⟨e.1, List.mem_of_find?_eq_some he, hKey⟩

def Apart (same : κ → κ → Bool) (t : Table κ υ) : Prop := t.Pairwise fun d e => same d.1 e.1 = false

theorem key_of_mem_alter {t : Table κ υ} {k : κ} {f : Option υ → υ} {e : κ × υ}
    (he : e ∈ t.alter same k f) : e.1 ∈ t.map Prod.fst ∨ e.1 = k := by
  induction t with
  | nil => exact .inr (by rw [List.mem_singleton.mp he])
  | cons d rest ih =>
    rw [alter] at he
    split at he
    · rcases List.mem_cons.mp he with rfl | he
      · exact .inl List.mem_cons_self
      · exact .inl (List.mem_cons_of_mem _ (List.mem_map_of_mem he))
    · rcases List.mem_cons.mp he with rfl | he
      · exact .inl List.mem_cons_self
      · exact (ih he).imp_left (List.mem_cons_of_mem _)

theorem Apart.alter {t : Table κ υ} (h : t.Apart same) (k : κ) (f : Option υ → υ) :
    (t.alter same k f).Apart same := by
  induction t with
  | nil => exact List.pairwise_singleton _ _
  | cons d rest ih =>
    obtain ⟨hFirst, hRest⟩ := List.pairwise_cons.mp h
    rw [Table.alter]
    split
    · exact List.pairwise_cons.mpr ⟨hFirst, hRest⟩
    · rename_i hOther
      refine List.pairwise_cons.mpr ⟨fun e he => ?_, ih hRest⟩
      rcases key_of_mem_alter he with hKey | hKey
      · obtain ⟨c, hc, hEq⟩ := List.mem_map.mp hKey
        exact hEq ▸ hFirst c hc
      · exact hKey ▸ Bool.eq_false_iff.mpr hOther

theorem gather_concat {α : Type} (add : υ → α → υ) (start : υ) (items : List (κ × α)) (item : κ × α) :
    gather same add start (items ++ [item]) =
      (gather same add start items).alter same item.1 fun old => add (old.getD start) item.2 := by
  simp [gather]

theorem apart_gather {α : Type} (add : υ → α → υ) (start : υ) (items : List (κ × α)) :
    (gather same add start items).Apart same := by
  induction items using List.reverseRecOn with
  | nil => exact .nil
  | append_singleton items item ih =>
    rw [gather_concat]
    exact ih.alter _ _

theorem put_of_value?_eq_none {t : Table κ υ} {k : κ} (h : t.value? same k = none) (v : υ) :
    t.put same k v = t ++ [(k, v)] := by
  induction t with
  | nil => rfl
  | cons e rest ih =>
    simp only [value?, Option.map_eq_none_iff, List.find?_cons] at h ih
    split at h
    · cases h
    · rename_i hOther
      simp only [put, alter, hOther, Bool.false_eq_true, if_false, List.cons_append, List.cons.injEq, true_and]
      exact ih h

end

section

variable {κ υ γ : Type} {same : κ → κ → Bool} {key : κ → γ} (hSame : Keyed same key)

include hSame

/-- The entries of a key are the one that a look-up finds, if there is one. -/
theorem Apart.values_eq {t : Table κ υ} (h : t.Apart same) (k : κ) :
    (t.filter (same ·.1 k)).map Prod.snd = (t.value? same k).toList := by
  induction t with
  | nil => rfl
  | cons d rest ih =>
    obtain ⟨hFirst, hRest⟩ := List.pairwise_cons.mp h
    rw [List.filter_cons]
    cases hk : same d.1 k with
    | false =>
      rw [if_neg (by decide), ih hRest]
      simp [value?, hk]
    | true =>
      have hOthers : rest.filter (same ·.1 k) = [] := by
        refine List.filter_eq_nil_iff.mpr fun e he hek => ?_
        have hde := (hSame d.1 e.1).mpr (((hSame _ _).mp hk).trans ((hSame _ _).mp hek).symm)
        rw [hFirst e he] at hde
        cases hde
      rw [if_pos rfl, hOthers]
      simp [value?, hk]

end

end Table

end ModuleAtlas
