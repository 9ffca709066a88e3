import ModuleAtlas.Graph.Cycle
import ModuleAtlas.Proofs.Graph.Walk
import Mathlib.Tactic.Common

/-!
# The shape of a coloured depth-first search

At every moment of the search the gray nodes are the trail, a chain of distinct nodes. So a
step to a gray node always finds that node on the trail.
-/

namespace ModuleAtlas.Search.Survey

open Walk

set_option autoImplicit false

variable {next : Nat → List Nat} {size : Nat} {s t : Survey}

abbrev Reaches (next : Nat → List Nat) : Survey → Survey → Prop :=
  Relation.ReflTransGen fun s t => s.step? next = some t

theorem reaches_run (next : Nat → List Nat) (s : Survey) : Reaches next s (s.run next) := by
  fun_induction run next s with
  | case1 s h => exact .refl
  | case2 s t h ih => exact .head h ih

theorem step?_run (next : Nat → List Nat) (s : Survey) : (s.run next).step? next = none := by
  fun_induction run next s with
  | case1 s h => exact h
  | case2 s t h ih => exact ih

theorem stack_and_starts_of_step?_eq_none (h : s.step? next = none) :
    s.stack = [] ∧ s.starts = [] := by
  unfold step? at h
  split at h
  · split at h
    · exact ⟨‹_›, ‹_›⟩
    · cases h
  · cases h
  · split at h <;> cases h

theorem Reaches.keeps {P : Survey → Prop} (hStep : ∀ s t, Move next s t → P s → P t)
    (h : Reaches next s t) (hs : P s) : P t := by
  induction h with
  | refl => exact hs
  | tail _ hStep' ih => exact hStep _ _ (move_of_step? hStep') ih

theorem colour_paint (s : Survey) {v : Nat} (hv : v < s.colours.size) (c : Colour) (w : Nat) :
    (s.paint v c).colour w = if w = v then c else s.colour w := by
  simp only [colour, paint, Array.getD_eq_getD_getElem?, Array.getElem?_setIfInBounds]
  by_cases hw : w = v
  · subst hw
    simp [hv]
  · simp [hw, Ne.symm hw]

theorem colour_enter {v : Nat} (hv : v < s.colours.size) (w : Nat) :
    (s.enter next v).colour w = if w = v then .gray else s.colour w :=
  colour_paint s hv .gray w

theorem trail_enter (next : Nat → List Nat) (s : Survey) (v : Nat) :
    (s.enter next v).trail = s.trail ++ [v] := by
  simp [trail, enter]

theorem trail_advance {node w : Nat} {rest : List Nat} {outer : List Frame}
    (hStack : s.stack = ⟨node, w :: rest⟩ :: outer) :
    trail { s with stack := ⟨node, rest⟩ :: outer } = s.trail := by
  simp [trail, hStack]

theorem trail_eq {f : Frame} {outer : List Frame} (hStack : s.stack = f :: outer) :
    s.trail = (outer.map Frame.node).reverse ++ [f.node] := by
  simp [trail, hStack]

/-- The gray nodes are the trail, which is a chain of distinct nodes; what is still to be looked
at are the last successors. -/
structure Shaped (next : Nat → List Nat) (size : Nat) (s : Survey) : Prop where
  size_eq : s.colours.size = size
  gray_iff : ∀ v, s.colour v = .gray ↔ v ∈ s.trail
  nodup : s.trail.Nodup
  linked : s.trail.IsChain (fun v w => w ∈ next v)
  suffix : ∀ f ∈ s.stack, f.rest <:+ next f.node

theorem shaped_begin (next : Nat → List Nat) (size : Nat) : Shaped next size (begin size) where
  size_eq := by simp [begin]
  gray_iff v := by
    by_cases hv : v < size <;> simp [begin, colour, trail, Array.getD, hv]
  nodup := List.nodup_nil
  linked := List.isChain_nil
  suffix := by simp [begin]

theorem Shaped.advance {node w : Nat} {rest : List Nat} {outer : List Frame} (h : Shaped next size s)
    (hStack : s.stack = ⟨node, w :: rest⟩ :: outer) :
    Shaped next size { s with stack := ⟨node, rest⟩ :: outer } where
  size_eq := h.size_eq
  gray_iff v := by
    rw [trail_advance hStack]
    exact h.gray_iff v
  nodup := by
    rw [trail_advance hStack]
    exact h.nodup
  linked := by
    rw [trail_advance hStack]
    exact h.linked
  suffix f hf := by
    rcases List.mem_cons.mp hf with rfl | hf
    · have hSuffix := h.suffix ⟨node, w :: rest⟩ (by simp [hStack])
      exact (List.suffix_cons w rest).trans hSuffix
    · exact h.suffix f (by simp [hStack, hf])

theorem Shaped.enter {v : Nat} (h : Shaped next size s) (hColour : s.colour v = .white)
    (hLast : ∀ u ∈ s.trail.getLast?, v ∈ next u) : Shaped next size (s.enter next v) := by
  have hv : v < s.colours.size := lt_size_of_colour_ne_black (by simp [hColour])
  have hNotMem : v ∉ s.trail := by
    rw [← h.gray_iff, hColour]
    decide
  constructor
  case size_eq => simpa [Survey.enter, paint] using h.size_eq
  case gray_iff =>
    intro w
    rw [colour_enter hv, trail_enter]
    by_cases hw : w = v
    · simp [hw]
    · simp [hw, h.gray_iff]
  case nodup =>
    rw [trail_enter]
    simpa using h.nodup.concat hNotMem
  case linked =>
    rw [trail_enter]
    exact h.linked.append (List.isChain_singleton v) (by simpa using hLast)
  case suffix =>
    intro f hf
    rcases List.mem_cons.mp hf with rfl | hf
    · exact List.suffix_rfl
    · exact h.suffix f hf

theorem Shaped.colour_top (h : Shaped next size s) {f : Frame} {outer : List Frame}
    (hStack : s.stack = f :: outer) : s.colour f.node = .gray :=
  (h.gray_iff f.node).mpr (by simp [trail_eq hStack])

theorem Shaped.top_lt (h : Shaped next size s) {f : Frame} {outer : List Frame}
    (hStack : s.stack = f :: outer) : f.node < s.colours.size :=
  lt_size_of_colour_ne_black (by simp [h.colour_top hStack])

theorem Shaped.node_ne_top (h : Shaped next size s) {f : Frame} {outer : List Frame}
    (hStack : s.stack = f :: outer) : ∀ e ∈ outer, e.node ≠ f.node := by
  intro e he hEq
  have hNodup := h.nodup
  rw [trail_eq hStack, List.nodup_append] at hNodup
  exact hNodup.2.2 e.node (by simpa using ⟨e, he, rfl⟩) f.node (by simp) hEq

theorem Shaped.leave {node : Nat} {outer : List Frame} (h : Shaped next size s)
    (hStack : s.stack = ⟨node, []⟩ :: outer) :
    Shaped next size { s.paint node .black with stack := outer } := by
  have hTrail : s.trail = trail { s.paint node .black with stack := outer } ++ [node] := trail_eq hStack
  have hNodup := h.nodup
  rw [hTrail, List.nodup_append] at hNodup
  constructor
  case size_eq => simpa [paint] using h.size_eq
  case gray_iff =>
    intro v
    have hPaint := colour_paint s (h.top_lt hStack) .black v
    change (s.paint node .black).colour v = .gray ↔ _
    rw [hPaint]
    split
    · rename_i hv
      subst hv
      simp only [reduceCtorEq, false_iff]
      exact fun hMem => hNodup.2.2 v hMem v (by simp) rfl
    · rename_i hv
      rw [h.gray_iff, hTrail]
      simp [hv]
  case nodup => exact hNodup.1
  case linked =>
    have hLinked := h.linked
    rw [hTrail] at hLinked
    exact hLinked.left_of_append
  case suffix => exact fun f hf => h.suffix f (by simp [hStack, hf])

theorem exists_append_loopAt {v : Nat} (hv : v ∈ s.trail) :
    (∃ before, s.trail = before ++ s.loopAt v) ∧ (s.loopAt v).head? = some v := by
  obtain ⟨i, hi⟩ := Option.isSome_iff_exists.mp (List.isSome_idxOf?.mpr hv)
  obtain ⟨hLt, hGet, _⟩ := List.idxOf?_eq_some_iff.mp hi
  have hLoop : s.loopAt v = s.trail.drop i := by rw [loopAt, position?, hi, Option.getD_some]
  rw [hLoop]
  refine ⟨⟨s.trail.take i, (List.take_append_drop i _).symm⟩, ?_⟩
  rw [List.head?_drop, List.getElem?_eq_getElem hLt, hGet]

theorem Shaped.closes_loopAt {node w : Nat} {rest : List Nat} {outer : List Frame}
    (h : Shaped next size s) (hStack : s.stack = ⟨node, w :: rest⟩ :: outer)
    (hColour : s.colour w = .gray) : Closes (s.loopAt w) node w := by
  obtain ⟨⟨before, hTrail⟩, hHead⟩ := exists_append_loopAt ((h.gray_iff w).mp hColour)
  have hne : s.loopAt w ≠ [] := by
    intro hNil
    rw [hNil] at hHead
    cases hHead
  have hLast : s.trail.getLast? = some node := by
    rw [trail_eq hStack]
    simp
  rw [hTrail, List.getLast?_append_of_ne_nil _ hne] at hLast
  exact ⟨hLast, hHead⟩

theorem Shaped.move (h : Shaped next size s) (hMove : Move next s t) : Shaped next size t := by
  cases hMove with
  | skip hStack hStarts hColour => exact ⟨h.size_eq, h.gray_iff, h.nodup, h.linked, h.suffix⟩
  | @start v starts hStack hStarts hColour =>
    have hShaped : Shaped next size { s with starts } :=
      ⟨h.size_eq, h.gray_iff, h.nodup, h.linked, h.suffix⟩
    exact hShaped.enter hColour (by simp [trail, hStack])
  | leave hStack => exact h.leave hStack
  | descend hStack hColour =>
    refine (h.advance hStack).enter hColour ?_
    have hSuffix := h.suffix _ (by rw [hStack]; exact List.mem_cons_self)
    rw [trail_advance hStack, trail_eq hStack]
    simpa using hSuffix.subset List.mem_cons_self
  | close hStack hColour =>
    obtain ⟨hSize, hGray, hNodup, hLinked, hSuffix⟩ := h.advance hStack
    exact ⟨hSize, hGray, hNodup, hLinked, hSuffix⟩
  | pass hStack hColour => exact h.advance hStack

end ModuleAtlas.Search.Survey
