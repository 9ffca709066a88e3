import ModuleAtlas.Proofs.Graph.Survey.Shape

/-!
# The record of a coloured depth-first search

Every reported cycle is a loop, and no two of them are closed by the same step: a successor
is looked at once, and a node is entered once.
-/

namespace ModuleAtlas.Search.Survey

open Walk

set_option autoImplicit false

variable {next : Nat → List Nat} {size : Nat} {s t : Survey}

/-- The reported cycles are loops, closed by different steps that are not looked at again. -/
structure Recorded (next : Nat → List Nat) (s : Survey) : Prop where
  loops : ∀ c ∈ s.cycles, Loop (fun v w => w ∈ next v) c
  spent : ∀ c ∈ s.cycles, ∀ v w, Closes c v w →
    s.colour v ≠ .white ∧ ∀ f ∈ s.stack, f.node = v → w ∉ f.rest
  distinct : (s.cycles.map fun c => (c.getLast?, c.head?)).Nodup

theorem recorded_begin (next : Nat → List Nat) (size : Nat) : Recorded next (begin size) where
  loops := by simp [begin]
  spent := by simp [begin]
  distinct := List.nodup_nil

theorem Recorded.advance {node w : Nat} {rest : List Nat} {outer : List Frame} (h : Recorded next s)
    (hStack : s.stack = ⟨node, w :: rest⟩ :: outer) :
    Recorded next { s with stack := ⟨node, rest⟩ :: outer } where
  loops := h.loops
  spent c hc v x hCloses := by
    obtain ⟨hColour, hSpent⟩ := h.spent c hc v x hCloses
    refine ⟨hColour, fun f hf hNode hMem => ?_⟩
    rcases List.mem_cons.mp hf with rfl | hf
    · exact hSpent ⟨node, w :: rest⟩ (by simp [hStack]) hNode (List.mem_cons_of_mem _ hMem)
    · exact hSpent f (by simp [hStack, hf]) hNode hMem
  distinct := h.distinct

theorem Recorded.enter {v : Nat} (h : Recorded next s) (hColour : s.colour v = .white) :
    Recorded next (s.enter next v) where
  loops := h.loops
  spent c hc u x hCloses := by
    obtain ⟨hNotWhite, hSpent⟩ := h.spent c hc u x hCloses
    have hne : u ≠ v := by
      rintro rfl
      exact hNotWhite hColour
    rw [colour_enter (lt_size_of_colour_ne_black (by simp [hColour])), if_neg hne]
    refine ⟨hNotWhite, fun f hf hNode => ?_⟩
    rcases List.mem_cons.mp hf with rfl | hf
    · exact absurd hNode.symm hne
    · exact hSpent f hf hNode
  distinct := h.distinct

theorem Recorded.close {node w : Nat} {rest : List Nat} {outer : List Frame} (h : Recorded next s)
    (hShaped : Shaped next size s) (hNext : ∀ v, (next v).Nodup)
    (hStack : s.stack = ⟨node, w :: rest⟩ :: outer) (hColour : s.colour w = .gray) :
    Recorded next { s with stack := ⟨node, rest⟩ :: outer, cycles := s.loopAt w :: s.cycles } := by
  obtain ⟨hLast, hHead⟩ := hShaped.closes_loopAt hStack hColour
  obtain ⟨⟨before, hTrail⟩, _⟩ := exists_append_loopAt ((hShaped.gray_iff w).mp hColour)
  have hSuffix : w :: rest <:+ next node := hShaped.suffix ⟨node, w :: rest⟩ (by simp [hStack])
  have hFresh : w ∉ rest := (List.nodup_cons.mp ((hNext node).sublist hSuffix.sublist)).1
  have hClosed : ∀ v x, Closes (s.loopAt w) v x → v = node ∧ x = w := by
    rintro v x ⟨hv, hx⟩
    exact ⟨by simpa [hLast] using hv.symm, by simpa [hHead] using hx.symm⟩
  obtain ⟨hLoops, hSpent, hDistinct⟩ := h.advance hStack
  constructor
  case loops =>
    intro c hc
    rcases List.mem_cons.mp hc with rfl | hc
    · refine ⟨by rintro hNil; simp [hNil] at hHead, ?_, ?_, ?_⟩
      · exact (hTrail ▸ hShaped.nodup).of_append_right
      · exact (hTrail ▸ hShaped.linked).right_of_append
      · intro v x hCloses
        obtain ⟨rfl, rfl⟩ := hClosed v x hCloses
        exact hSuffix.subset List.mem_cons_self
    · exact hLoops c hc
  case spent =>
    intro c hc v x hCloses
    rcases List.mem_cons.mp hc with rfl | hc
    · obtain ⟨rfl, rfl⟩ := hClosed v x hCloses
      have hNotWhite : s.colour v ≠ .white := by
        rw [hShaped.colour_top hStack]
        decide
      refine ⟨hNotWhite, fun f hf hNode => ?_⟩
      rcases List.mem_cons.mp hf with rfl | hf
      · exact hFresh
      · exact absurd hNode (hShaped.node_ne_top hStack f hf)
    · exact hSpent c hc v x hCloses
  case distinct =>
    rw [List.map_cons, List.nodup_cons]
    refine ⟨fun hMem => ?_, hDistinct⟩
    -- a cycle closed by the same step would have used up this successor
    obtain ⟨c, hc, hEq⟩ := List.mem_map.mp hMem
    have hCloses : Closes c node w := by
      rw [hHead, hLast, Prod.mk.injEq] at hEq
      exact hEq
    exact (h.spent c hc node w hCloses).2 ⟨node, w :: rest⟩ (by simp [hStack]) rfl List.mem_cons_self

theorem Recorded.leave {node : Nat} {outer : List Frame} (h : Recorded next s)
    (hShaped : Shaped next size s) (hStack : s.stack = ⟨node, []⟩ :: outer) :
    Recorded next { s.paint node .black with stack := outer } where
  loops := h.loops
  spent c hc v x hCloses := by
    obtain ⟨hNotWhite, hSpent⟩ := h.spent c hc v x hCloses
    refine ⟨?_, fun f hf => hSpent f (by simp [hStack, hf])⟩
    change (s.paint node .black).colour v ≠ .white
    rw [colour_paint s (hShaped.top_lt hStack)]
    split
    · decide
    · exact hNotWhite
  distinct := h.distinct

theorem Recorded.move (h : Recorded next s) (hShaped : Shaped next size s)
    (hNext : ∀ v, (next v).Nodup) (hMove : Move next s t) : Recorded next t := by
  cases hMove with
  | skip hStack hStarts hColour => exact ⟨h.loops, h.spent, h.distinct⟩
  | @start v starts hStack hStarts hColour =>
    have hRecorded : Recorded next { s with starts } := ⟨h.loops, h.spent, h.distinct⟩
    exact hRecorded.enter hColour
  | leave hStack => exact h.leave hShaped hStack
  | descend hStack hColour => exact (h.advance hStack).enter hColour
  | close hStack hColour => exact h.close hShaped hNext hStack hColour
  | pass hStack hColour => exact h.advance hStack

end ModuleAtlas.Search.Survey
