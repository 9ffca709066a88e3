import ModuleAtlas.Graph.Reach
import ModuleAtlas.Proofs.Graph.Built
import ModuleAtlas.Proofs.Graph.Walk

/-!
# What a bounded walk meets

A walk marks a node with the number of steps it took when it first met it, and goes on from
it only if that number is below the bound. Which nodes it meets is decided by these marks
and not by distances: a node met late on a detour is not taken up again.
-/

namespace ModuleAtlas

set_option autoImplicit false

namespace Search

open Walk

variable {next : Nat → List Nat} {limit : Option Nat} {size start : Nat}

/-- A node marked with this number of steps is not gone on from. -/
def Halts (limit : Option Nat) (depth : Nat) : Prop := ∃ k, limit = some k ∧ k ≤ depth

theorem not_halts_some {k d : Nat} : ¬ Halts (some k) d ↔ d < k := by simp [Halts]

theorem any_le_eq_true {depth : Nat} : limit.any (· ≤ depth) = true ↔ Halts limit depth := by
  cases limit <;> simp [Halts]

structure Frontier.Honest (next : Nat → List Nat) (limit : Option Nat) (size start : Nat)
    (f : Frontier) : Prop where
  nodup : (f.seen.map Prod.fst).Nodup
  inside : ∀ x ∈ f.seen, x.1 < size
  rooted : [(start, 0)] <:+ f.seen
  waiting_seen : ∀ x ∈ f.waiting, x ∈ f.seen
  walked : ∀ x ∈ f.seen, Steps (fun v w => w ∈ next v) x.2 start x.1
  origin : ∀ x ∈ f.seen, x.1 = start ∨
    ∃ y ∈ f.seen, ¬ Halts limit y.2 ∧ x.1 ∈ next y.1 ∧ x.2 = y.2 + 1
  expanded : ∀ x ∈ f.seen, x ∈ f.waiting ∨ Halts limit x.2 ∨
    ∀ w ∈ next x.1, w ∈ f.seen.map Prod.fst

theorem exists_foldl_see (depth : Nat) (ws : List Nat) (f : Frontier)
    (h : (f.seen.map Prod.fst).Nodup) :
    ∃ new : List (Nat × Nat),
      ws.foldl (Frontier.see depth) f = ⟨new ++ f.waiting, new ++ f.seen⟩ ∧
      (∀ x ∈ new, x.1 ∈ ws ∧ x.2 = depth) ∧ ((new ++ f.seen).map Prod.fst).Nodup ∧
      ∀ w ∈ ws, w ∈ (new ++ f.seen).map Prod.fst := by
  induction ws generalizing f with
  | nil => exact ⟨[], rfl, by simp, h, by simp⟩
  | cons w ws ih =>
    rw [List.foldl_cons]
    by_cases hw : w ∈ f.seen.map Prod.fst
    · have hSee : f.see depth w = f := by
        have hAny : f.seen.any (·.1 == w) = true := by simpa using hw
        rw [Frontier.see, if_pos hAny]
      obtain ⟨new, hFold, hNew, hNodup, hAll⟩ := ih f h
      refine ⟨new, by rw [hSee, hFold], ?_, hNodup, ?_⟩
      · exact fun x hx => ⟨List.mem_cons_of_mem _ (hNew x hx).1, (hNew x hx).2⟩
      · intro v hv
        rcases List.mem_cons.mp hv with rfl | hv
        · rw [List.map_append]
          exact List.mem_append_right _ hw
        · exact hAll v hv
    · have hSee : f.see depth w = ⟨(w, depth) :: f.waiting, (w, depth) :: f.seen⟩ := by
        have hAny : ¬ f.seen.any (·.1 == w) = true := by simpa using hw
        rw [Frontier.see, if_neg hAny]
      obtain ⟨new, hFold, hNew, hNodup, hAll⟩ := ih (f.see depth w) (by
        rw [hSee]
        exact List.nodup_cons.mpr ⟨hw, h⟩)
      rw [hSee] at hFold hNodup hAll
      refine ⟨new ++ [(w, depth)], by rw [hSee, hFold]; simp, ?_, by simpa using hNodup, ?_⟩
      · intro x hx
        rcases List.mem_append.mp hx with hx | hx
        · exact ⟨List.mem_cons_of_mem _ (hNew x hx).1, (hNew x hx).2⟩
        · rw [List.mem_singleton.mp hx]
          exact ⟨List.mem_cons_self, rfl⟩
      · intro v hv
        rcases List.mem_cons.mp hv with rfl | hv
        · simp
        · simpa using hAll v hv

theorem Frontier.honest_begin (next : Nat → List Nat) (limit : Option Nat) (hStart : start < size) :
    (Frontier.begin start).Honest next limit size start where
  nodup := by simp [Frontier.begin]
  inside := by simpa [Frontier.begin] using hStart
  rooted := List.suffix_rfl
  waiting_seen := by simp [Frontier.begin]
  walked := by simpa [Frontier.begin] using Steps.stay start
  origin := by simp [Frontier.begin]
  expanded := by simp [Frontier.begin]

theorem Frontier.Honest.drop {f : Frontier} (h : f.Honest next limit size start)
    {x : Nat × Nat} {rest : List (Nat × Nat)} (hWaiting : f.waiting = x :: rest)
    (hHalts : Halts limit x.2) : Frontier.Honest next limit size start ⟨rest, f.seen⟩ where
  nodup := h.nodup
  inside := h.inside
  rooted := h.rooted
  waiting_seen y hy := h.waiting_seen y (hWaiting ▸ List.mem_cons_of_mem _ hy)
  walked := h.walked
  origin := h.origin
  expanded y hy := by
    rcases h.expanded y hy with hy | hy
    · rw [hWaiting] at hy
      rcases List.mem_cons.mp hy with rfl | hy
      · exact .inr (.inl hHalts)
      · exact .inl hy
    · exact .inr hy

theorem Frontier.Honest.expand (hNext : ∀ v, ∀ w ∈ next v, w < size) {f : Frontier}
    (h : f.Honest next limit size start) {x : Nat × Nat} {rest : List (Nat × Nat)}
    (hWaiting : f.waiting = x :: rest) (hHalts : ¬ Halts limit x.2) {new : List (Nat × Nat)}
    (hNew : ∀ y ∈ new, y.1 ∈ next x.1 ∧ y.2 = x.2 + 1)
    (hNodup : ((new ++ f.seen).map Prod.fst).Nodup)
    (hAll : ∀ w ∈ next x.1, w ∈ (new ++ f.seen).map Prod.fst) :
    Frontier.Honest next limit size start ⟨new ++ rest, new ++ f.seen⟩ := by
  have hx : x ∈ f.seen := h.waiting_seen x (hWaiting ▸ List.mem_cons_self)
  have hOld : ∀ {y}, y ∈ f.seen → y ∈ new ++ f.seen := fun hy => List.mem_append_right _ hy
  constructor
  case nodup => exact hNodup
  case inside =>
    intro y hy
    rcases List.mem_append.mp hy with hy | hy
    · exact hNext x.1 y.1 (hNew y hy).1
    · exact h.inside y hy
  case rooted => exact h.rooted.trans (List.suffix_append new f.seen)
  case waiting_seen =>
    intro y hy
    rcases List.mem_append.mp hy with hy | hy
    · exact List.mem_append_left _ hy
    · exact hOld (h.waiting_seen y (hWaiting ▸ List.mem_cons_of_mem _ hy))
  case walked =>
    intro y hy
    rcases List.mem_append.mp hy with hy | hy
    · obtain ⟨hMem, hDepth⟩ := hNew y hy
      rw [hDepth]
      exact .on (h.walked x hx) hMem
    · exact h.walked y hy
  case origin =>
    intro y hy
    rcases List.mem_append.mp hy with hy | hy
    · exact .inr ⟨x, hOld hx, hHalts, hNew y hy⟩
    · exact (h.origin y hy).imp_right fun ⟨z, hz, hRest⟩ => ⟨z, hOld hz, hRest⟩
  case expanded =>
    intro y hy
    rcases List.mem_append.mp hy with hy | hy
    · exact .inl (List.mem_append_left _ hy)
    · rcases h.expanded y hy with hy | hy | hy
      · rw [hWaiting] at hy
        rcases List.mem_cons.mp hy with rfl | hy
        · exact .inr (.inr hAll)
        · exact .inl (List.mem_append_right _ hy)
      · exact .inr (.inl hy)
      · refine .inr (.inr fun w hw => ?_)
        rw [List.map_append]
        exact List.mem_append_right _ (hy w hw)

theorem follow_honest (hNext : ∀ v, ∀ w ∈ next v, w < size) (fuel : Nat) (f : Frontier)
    (h : f.Honest next limit size start)
    (hFuel : f.waiting.length + size < fuel + f.seen.length) :
    (follow next limit fuel f).Honest next limit size start ∧
      (follow next limit fuel f).waiting = [] ∧ f.seen <:+ (follow next limit fuel f).seen := by
  -- each node dealt with makes those that wait or were never seen one fewer
  induction fuel generalizing f with
  | zero =>
    have hLength : (f.seen.map Prod.fst).length ≤ size :=
      length_le_of_nodup h.nodup (by simpa using h.inside)
    rw [List.length_map] at hLength
    omega
  | succ fuel ih =>
    rw [follow]
    split
    · exact ⟨h, ‹_›, List.suffix_rfl⟩
    · rename_i node depth rest hWaiting
      have hLength : f.waiting.length = rest.length + 1 := by rw [hWaiting, List.length_cons]
      split
      · rename_i hLimit
        exact ih ⟨rest, f.seen⟩ (h.drop hWaiting (any_le_eq_true.mp hLimit)) (by
          simp only
          omega)
      · rename_i hLimit
        obtain ⟨new, hFold, hNew, hNodup, hAll⟩ :=
          exists_foldl_see (depth + 1) (next node).reverse ⟨rest, f.seen⟩ h.nodup
        rw [hFold]
        have hNew' : ∀ y ∈ new, y.1 ∈ next node ∧ y.2 = depth + 1 := by simpa using hNew
        have hExpand := h.expand hNext hWaiting (fun hHalts => hLimit (any_le_eq_true.mpr hHalts))
          hNew' hNodup (by simpa using hAll)
        obtain ⟨hHonest, hDone, hSuffix⟩ := ih _ hExpand (by
          simp only [List.length_append]
          omega)
        exact ⟨hHonest, hDone, (List.suffix_append new f.seen).trans hSuffix⟩

section Outcome

variable (limit : Option Nat) (hNext : ∀ v, ∀ w ∈ next v, w < size) (hStart : start < size)

include hNext hStart

theorem follow_begin :
    (follow next limit (size + 1) (.begin start)).Honest next limit size start ∧
      (follow next limit (size + 1) (.begin start)).waiting = [] := by
  obtain ⟨hHonest, hDone, _⟩ := follow_honest hNext (size + 1) (.begin start)
    (Frontier.honest_begin next limit hStart) (by
      simp only [Frontier.begin, List.length_singleton]
      omega)
  exact ⟨hHonest, hDone⟩

theorem met_eq_cons : ∃ rest, met next size limit start = (start, 0) :: rest := by
  obtain ⟨new, hNew⟩ := (follow_begin limit hNext hStart).1.rooted
  exact ⟨new.reverse, by rw [met, ← hNew, List.reverse_append]; rfl⟩

theorem start_mem_met : (start, 0) ∈ met next size limit start := by
  obtain ⟨rest, hMet⟩ := met_eq_cons limit hNext hStart
  rw [hMet]
  exact List.mem_cons_self

theorem met_nodup : ((met next size limit start).map Prod.fst).Nodup := by
  rw [met, List.map_reverse, List.nodup_reverse]
  exact (follow_begin limit hNext hStart).1.nodup

theorem steps_of_mem_met {v d : Nat} (h : (v, d) ∈ met next size limit start) :
    Steps (fun v w => w ∈ next v) d start v :=
  (follow_begin limit hNext hStart).1.walked (v, d) (List.mem_reverse.mp h)

theorem mark_le_of_mem_met {k v d : Nat} (h : (v, d) ∈ met next size (some k) start) : d ≤ k := by
  have hHonest := (follow_begin (some k) hNext hStart).1
  rcases hHonest.origin (v, d) (List.mem_reverse.mp h) with hEq | ⟨⟨u, e⟩, _, hHalts, _, hMark⟩
  · have hStartMark := List.inj_on_of_nodup_map (met_nodup (some k) hNext hStart) h
      (start_mem_met (some k) hNext hStart) hEq
    cases hStartMark
    exact Nat.zero_le k
  · have he := not_halts_some.mp hHalts
    simp only at hMark he
    omega

theorem exists_mem_met_iff {w : Nat} (hw : w ≠ start) :
    (∃ d, (w, d) ∈ met next size limit start) ↔
      ∃ u d, (u, d) ∈ met next size limit start ∧ ¬ Halts limit d ∧ w ∈ next u := by
  obtain ⟨hHonest, hDone⟩ := follow_begin limit hNext hStart
  constructor
  · rintro ⟨d, hd⟩
    rcases hHonest.origin (w, d) (List.mem_reverse.mp hd) with hEq | ⟨⟨u, e⟩, hu, hHalts, hMem, _⟩
    · exact absurd hEq hw
    · exact ⟨u, e, List.mem_reverse.mpr hu, hHalts, hMem⟩
  · rintro ⟨u, d, hu, hHalts, hMem⟩
    rcases hHonest.expanded (u, d) (List.mem_reverse.mp hu) with hWaiting | hHalts' | hAll
    · rw [hDone] at hWaiting
      exact absurd hWaiting List.not_mem_nil
    · exact absurd hHalts' hHalts
    · obtain ⟨⟨_, e⟩, he, rfl⟩ := List.mem_map.mp (hAll w hMem)
      exact ⟨e, List.mem_reverse.mpr he⟩

theorem cons_reached_nodup : (start :: reached next size limit start).Nodup := by
  obtain ⟨rest, hMet⟩ := met_eq_cons limit hNext hStart
  have hNodup := met_nodup limit hNext hStart
  rwa [reached, hMet, List.drop_one, List.tail_cons] at *

theorem mem_reached_iff_met {w : Nat} :
    w ∈ reached next size limit start ↔ w ≠ start ∧ ∃ d, (w, d) ∈ met next size limit start := by
  obtain ⟨rest, hMet⟩ := met_eq_cons limit hNext hStart
  have hNodup := met_nodup limit hNext hStart
  rw [hMet, List.map_cons, List.nodup_cons] at hNodup
  rw [reached, hMet, List.drop_one, List.tail_cons, List.mem_map]
  constructor
  · rintro ⟨⟨v, d⟩, hd, rfl⟩
    refine ⟨fun hEq => hNodup.1 ?_, d, List.mem_cons_of_mem _ hd⟩
    exact List.mem_map.mpr ⟨(v, d), hd, hEq⟩
  · rintro ⟨hw, d, hd⟩
    rcases List.mem_cons.mp hd with hEq | hd
    · exact absurd (congrArg Prod.fst hEq) hw
    · exact ⟨(w, d), hd, rfl⟩

theorem mem_reached_iff {w : Nat} (hw : w ≠ start) :
    w ∈ reached next size limit start ↔
      ∃ u d, (u, d) ∈ met next size limit start ∧ ¬ Halts limit d ∧ w ∈ next u := by
  rw [mem_reached_iff_met limit hNext hStart, exists_mem_met_iff limit hNext hStart hw]
  exact and_iff_right hw

theorem mem_reached_none {w : Nat} :
    w ∈ reached next size none start ↔
      w ≠ start ∧ Relation.ReflTransGen (fun v w => w ∈ next v) start w := by
  rw [mem_reached_iff_met none hNext hStart]
  constructor
  · rintro ⟨hw, d, hd⟩
    exact ⟨hw, exists_steps_iff.mp ⟨d, steps_of_mem_met none hNext hStart hd⟩⟩
  · rintro ⟨hw, h⟩
    refine ⟨hw, ?_⟩
    clear hw
    induction h with
    | refl => exact ⟨0, start_mem_met none hNext hStart⟩
    | @tail v w _ hvw ih =>
      obtain ⟨d, hd⟩ := ih
      by_cases hw : w = start
      · exact ⟨0, by rw [hw]; exact start_mem_met none hNext hStart⟩
      · exact (exists_mem_met_iff none hNext hStart hw).mpr ⟨v, d, hd, by simp [Halts], hvw⟩

theorem mem_met_of_mem_next_start {w : Nat} (hw : w ∈ next start) (hne : w ≠ start)
    (hHalts : ¬ Halts limit 0) : (w, 1) ∈ met next size limit start := by
  have hBegin := Frontier.honest_begin next limit hStart
  obtain ⟨new, hFold, hNew, hNodup, hAll⟩ :=
    exists_foldl_see 1 (next start).reverse ⟨[], [(start, 0)]⟩ hBegin.nodup
  simp only [List.mem_reverse] at hNew hAll
  have hExpand := hBegin.expand hNext rfl hHalts hNew hNodup hAll
  have hFollow : follow next limit (size + 1) (.begin start) =
      follow next limit size ⟨new ++ [], new ++ [(start, 0)]⟩ := by
    have hLimit : ¬ limit.any (· ≤ 0) = true := fun hAny => hHalts (any_le_eq_true.mp hAny)
    rw [follow, Frontier.begin]
    simp only [hLimit, Nat.zero_add, hFold]
    rfl
  obtain ⟨_, _, hSuffix⟩ := follow_honest hNext size _ hExpand (by
    simp only [Frontier.begin, List.append_nil, List.length_append, List.length_singleton]
    omega)
  obtain ⟨⟨_, d⟩, hd, rfl⟩ := List.mem_map.mp (hAll w hw)
  rcases List.mem_append.mp hd with hd | hd
  · obtain rfl : d = 1 := (hNew _ hd).2
    rw [met, List.mem_reverse, hFollow]
    exact hSuffix.subset (List.mem_append_left _ hd)
  · exact absurd (congrArg Prod.fst (List.mem_singleton.mp hd)) hne

end Outcome

end Search

end ModuleAtlas
