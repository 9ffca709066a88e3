import ModuleAtlas.Proofs.Graph.Survey.Shape

/-!
# The cover of a coloured depth-first search

A node is left only when each of its steps leads to a node that was left before or closes a
reported cycle. So without the closing steps no walk from a black node goes on for ever.
-/

namespace ModuleAtlas.Search.Survey

open Walk

set_option autoImplicit false

variable {next : Nat → List Nat} {size : Nat} {s t : Survey}

/-- Nodes that are not white will not be started from; a successor that was looked at is black,
further in on the trail, or closed a cycle; without the steps that closed cycles every walk from
a black node ends. -/
structure Covered (next : Nat → List Nat) (size : Nat) (s : Survey) : Prop where
  started : ∀ v < size, v ∈ s.starts ∨ s.colour v ≠ .white
  passed : ∀ inner f outer, s.stack = inner ++ f :: outer → ∀ w ∈ next f.node,
    w ∈ f.rest ∨ s.colour w = .black ∨ w ∈ inner.map Frame.node ∨ ∃ c ∈ s.cycles, Closes c f.node w
  settled : ∀ v < size, s.colour v = .black →
    Acc (fun w v => Kept (fun v w => w ∈ next v) s.cycles v w) v

theorem covered_begin (next : Nat → List Nat) (size : Nat) : Covered next size (begin size) where
  started v hv := .inl (by simpa [begin] using hv)
  passed inner f outer hStack := by
    cases inner <;> cases hStack
  settled v hv hColour := by simp [begin, colour, hv] at hColour

theorem Covered.passed_advance {node w : Nat} {rest : List Nat} {outer : List Frame}
    (h : Covered next size s) (hStack : s.stack = ⟨node, w :: rest⟩ :: outer)
    (inner : List Frame) (f : Frame) (outer' : List Frame)
    (hAdvance : ⟨node, rest⟩ :: outer = inner ++ f :: outer') : ∀ x ∈ next f.node,
      x ∈ f.rest ∨ s.colour x = .black ∨ (f.node = node ∧ x = w) ∨ x ∈ inner.map Frame.node ∨
        ∃ c ∈ s.cycles, Closes c f.node x := by
  intro x hx
  cases inner with
  | nil =>
    cases hAdvance
    rcases h.passed [] ⟨node, w :: rest⟩ outer hStack x hx with hx | hx | hx | hx
    · rcases List.mem_cons.mp hx with hx | hx
      · exact .inr (.inr (.inl ⟨rfl, hx⟩))
      · exact .inl hx
    · exact .inr (.inl hx)
    · exact absurd hx List.not_mem_nil
    · exact .inr (.inr (.inr (.inr hx)))
  | cons top inner =>
    cases hAdvance
    rcases h.passed (⟨node, w :: rest⟩ :: inner) f outer' hStack x hx with hx | hx | hx | hx
    · exact .inl hx
    · exact .inr (.inl hx)
    · exact .inr (.inr (.inr (.inl hx)))
    · exact .inr (.inr (.inr (.inr hx)))

theorem Covered.advance {node w : Nat} {rest : List Nat} {outer : List Frame} {cycles : List (List Nat)}
    (h : Covered next size s) (hStack : s.stack = ⟨node, w :: rest⟩ :: outer)
    (hCycles : ∀ c ∈ s.cycles, c ∈ cycles)
    (hw : s.colour w = .black ∨ ∃ c ∈ cycles, Closes c node w) :
    Covered next size { s with stack := ⟨node, rest⟩ :: outer, cycles } where
  started := h.started
  passed inner f outer' hAdvance x hx := by
    rcases h.passed_advance hStack inner f outer' hAdvance x hx with
      hx | hx | ⟨hNode, rfl⟩ | hx | ⟨c, hc, hCloses⟩
    · exact .inl hx
    · exact .inr (.inl hx)
    · rw [hNode]
      exact hw.elim (fun h => .inr (.inl h)) fun h => .inr (.inr (.inr h))
    · exact .inr (.inr (.inl hx))
    · exact .inr (.inr (.inr ⟨c, hCycles c hc, hCloses⟩))
  settled v hv hColour := by
    refine Subrelation.accessible ?_ (h.settled v hv hColour)
    exact fun hKept => ⟨hKept.1, fun c hc => hKept.2 c (hCycles c hc)⟩

theorem Covered.enter {v : Nat} {starts : List Nat} {stack : List Frame} (h : Covered next size s)
    (hColour : s.colour v = .white) (hStarts : ∀ u ∈ s.starts, u = v ∨ u ∈ starts)
    (hPassed : ∀ inner f outer, stack = inner ++ f :: outer → ∀ w ∈ next f.node,
      w ∈ f.rest ∨ s.colour w = .black ∨ w = v ∨ w ∈ inner.map Frame.node ∨
        ∃ c ∈ s.cycles, Closes c f.node w) :
    Covered next size (Survey.enter next { s with starts, stack } v) := by
  have hv : v < s.colours.size := lt_size_of_colour_ne_black (by simp [hColour])
  have hEnter : ∀ w, (Survey.enter next { s with starts, stack } v).colour w =
      if w = v then .gray else s.colour w :=
    @colour_enter next { s with starts, stack } v hv
  constructor
  case started =>
    intro u hu
    rw [hEnter]
    split
    · exact .inr (by decide)
    · rename_i hne
      exact (h.started u hu).imp_left fun hMem => (hStarts u hMem).resolve_left hne
  case passed =>
    intro inner f outer hStack w hw
    rw [hEnter]
    cases inner with
    | nil =>
      cases hStack
      exact .inl hw
    | cons top inner =>
      cases hStack
      rcases hPassed inner f outer rfl w hw with hw | hw | hw | hw | hw
      · exact .inl hw
      · refine .inr (.inl ?_)
        rw [if_neg, hw]
        rintro rfl
        simp [hColour] at hw
      · exact .inr (.inr (.inl (by simp [hw])))
      · exact .inr (.inr (.inl (List.mem_cons_of_mem _ hw)))
      · exact .inr (.inr (.inr hw))
  case settled =>
    intro u hu
    rw [hEnter]
    split
    · intro hBlack
      cases hBlack
    · exact h.settled u hu

theorem Covered.leave (hNext : ∀ v, ∀ w ∈ next v, w < size) {node : Nat} {outer : List Frame}
    (h : Covered next size s) (hShaped : Shaped next size s)
    (hStack : s.stack = ⟨node, []⟩ :: outer) :
    Covered next size { s.paint node .black with stack := outer } := by
  have hPaint : ∀ v, colour { s.paint node .black with stack := outer } v =
      if v = node then .black else s.colour v :=
    colour_paint s (hShaped.top_lt hStack) .black
  have hBlack : ∀ {v}, s.colour v = .black →
      colour { s.paint node .black with stack := outer } v = .black := by
    intro v hv
    rw [hPaint, hv, ite_self]
  constructor
  case started =>
    intro v hv
    rw [hPaint]
    refine (h.started v hv).imp_right fun hNotWhite => ?_
    split
    · decide
    · exact hNotWhite
  case passed =>
    intro inner f outer' hStack' w hw
    have hStackOld : s.stack = (⟨node, []⟩ :: inner) ++ f :: outer' := by
      rw [hStack]
      exact congrArg _ hStack'
    rcases h.passed _ f outer' hStackOld w hw with hw | hw | hw | hw
    · exact .inl hw
    · exact .inr (.inl (hBlack hw))
    · rcases List.mem_cons.mp hw with rfl | hw
      · exact .inr (.inl (by rw [hPaint, if_pos rfl]))
      · exact .inr (.inr (.inl hw))
    · exact .inr (.inr (.inr hw))
  case settled =>
    intro v hv
    rw [hPaint]
    split
    · rename_i hEq
      subst hEq
      intro _
      -- nothing is left to look at, so a kept step leads to a black node
      refine Acc.intro v fun w hKept => ?_
      rcases h.passed [] _ outer hStack w hKept.1 with hw | hw | hw | ⟨c, hc, hCloses⟩
      · exact absurd hw List.not_mem_nil
      · exact h.settled w (hNext v w hKept.1) hw
      · exact absurd hw List.not_mem_nil
      · exact absurd hCloses (hKept.2 c hc)
    · exact h.settled v hv

theorem Covered.move (hNext : ∀ v, ∀ w ∈ next v, w < size) (h : Covered next size s)
    (hShaped : Shaped next size s) (hMove : Move next s t) : Covered next size t := by
  cases hMove with
  | @skip v starts hStack hStarts hColour =>
    refine ⟨fun u hu => ?_, h.passed, h.settled⟩
    rcases h.started u hu with hMem | hMem
    · rw [hStarts] at hMem
      rcases List.mem_cons.mp hMem with rfl | hMem
      · exact .inr hColour
      · exact .inl hMem
    · exact .inr hMem
  | start hStack hStarts hColour =>
    refine h.enter hColour (by simp [hStarts]) ?_
    intro inner f outer hNil
    rw [hStack] at hNil
    cases inner <;> cases hNil
  | leave hStack => exact h.leave hNext hShaped hStack
  | @descend node w rest outer hStack hColour =>
    refine h.enter hColour (fun u hu => .inr hu) fun inner f outer' hAdvance x hx => ?_
    rcases h.passed_advance hStack inner f outer' hAdvance x hx with hx | hx | hx | hx
    · exact .inl hx
    · exact .inr (.inl hx)
    · exact .inr (.inr (.inl hx.2))
    · exact .inr (.inr (.inr hx))
  | close hStack hColour =>
    have hCloses := hShaped.closes_loopAt hStack hColour
    exact h.advance hStack (fun c hc => List.mem_cons_of_mem _ hc)
      (.inr ⟨_, List.mem_cons_self, hCloses⟩)
  | pass hStack hColour => exact h.advance hStack (fun c hc => hc) (.inl hColour)

end ModuleAtlas.Search.Survey
