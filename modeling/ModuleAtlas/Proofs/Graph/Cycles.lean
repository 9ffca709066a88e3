import ModuleAtlas.Proofs.Graph.Built
import ModuleAtlas.Proofs.Graph.Component
import ModuleAtlas.Proofs.Graph.Survey.Cover
import ModuleAtlas.Proofs.Graph.Survey.Record

/-!
# Import cycles

The reported cycles are loops of the graph, and taking away the step that closes each of
them leaves no way around. So there is a report exactly if some file leads back to itself,
and the files in looping components are those that do.
-/

namespace ModuleAtlas

open Relation Walk

set_option autoImplicit false

namespace Search

variable {next : Nat → List Nat} {size : Nat}

theorem Survey.Reaches.shaped {s : Survey} (h : Survey.Reaches next (.begin size) s) :
    s.Shaped next size :=
  h.keeps (fun _ _ hMove hs => hs.move hMove) (Survey.shaped_begin next size)

theorem Survey.Reaches.position?_isSome {s : Survey} (h : Survey.Reaches next (.begin size) s)
    {w : Nat} (hColour : s.colour w = .gray) : (s.position? w).isSome = true :=
  List.isSome_idxOf?.mpr ((h.shaped.gray_iff w).mp hColour)

section Report

variable (hNext : ∀ v, ∀ w ∈ next v, w < size) (hNodup : ∀ v, (next v).Nodup)

include hNext hNodup

theorem survey_done : ((Survey.begin size).run next).Shaped next size ∧
    ((Survey.begin size).run next).Recorded next ∧ ((Survey.begin size).run next).Covered next size := by
  refine (Survey.reaches_run next (.begin size)).keeps
    (P := fun s => s.Shaped next size ∧ s.Recorded next ∧ s.Covered next size)
    (fun s t hMove ⟨hShaped, hRecorded, hCovered⟩ => ?_)
    ⟨Survey.shaped_begin next size, Survey.recorded_begin next size, Survey.covered_begin next size⟩
  exact ⟨hShaped.move hMove, hRecorded.move hShaped hNodup hMove, hCovered.move hNext hShaped hMove⟩

theorem loop_of_mem_cycles {c : List Nat} (hc : c ∈ cycles next size) :
    Loop (fun v w => w ∈ next v) c :=
  (survey_done hNext hNodup).2.1.loops c (List.mem_reverse.mp hc)

theorem cycles_closed_distinctly :
    ((cycles next size).map fun c => (c.getLast?, c.head?)).Nodup := by
  rw [cycles, List.map_reverse, List.nodup_reverse]
  exact (survey_done hNext hNodup).2.1.distinct

theorem not_transGen_kept (v : Nat) :
    ¬ TransGen (Kept (fun v w => w ∈ next v) (cycles next size)) v v := by
  obtain ⟨hShaped, _, hCovered⟩ := survey_done hNext hNodup
  obtain ⟨hStack, hStarts⟩ :=
    Survey.stack_and_starts_of_step?_eq_none (Survey.step?_run next (.begin size))
  have hKept : Kept (fun v w => w ∈ next v) (cycles next size) =
      Kept (fun v w => w ∈ next v) ((Survey.begin size).run next).cycles := by
    funext v w
    simp [Kept, cycles]
  rw [hKept]
  intro hLoop
  have hv : v < size := by
    obtain ⟨u, _, huv⟩ := TransGen.tail'_iff.mp hLoop
    exact hNext u v huv.1
  -- every node was started from, and none is on the trail any more
  have hBlack : ((Survey.begin size).run next).colour v = .black := by
    have hNotWhite := (hCovered.started v hv).resolve_left (by simp [hStarts])
    have hNotGray : ((Survey.begin size).run next).colour v ≠ .gray := by
      rw [ne_eq, hShaped.gray_iff]
      simp [Survey.trail, hStack]
    cases hColour : ((Survey.begin size).run next).colour v with
    | white => exact absurd hColour hNotWhite
    | gray => exact absurd hColour hNotGray
    | black => rfl
  exact not_transGen_of_acc (hCovered.settled v hv hBlack) hLoop

theorem cycles_ne_nil_iff :
    cycles next size ≠ [] ↔ ∃ v, TransGen (fun v w => w ∈ next v) v v := by
  constructor
  · intro hne
    obtain ⟨c, hc⟩ := List.exists_mem_of_ne_nil _ hne
    exact (loop_of_mem_cycles hNext hNodup hc).exists_transGen
  · rintro ⟨v, hv⟩ hNil
    apply not_transGen_kept hNext hNodup v
    rw [hNil]
    exact hv.lift id fun u w huw => ⟨huw, by simp⟩

end Report

end Search

namespace FileGraph

/-- What the reported cycles, given by their nodes, say about a graph. -/
structure BreakLoops (g : FileGraph) (found : List (List Nat)) : Prop where
  shown : g.cycles = found.map fun c => .ofFiles (c.map fun v => g.display (g.pathAt v))
  loops : ∀ c ∈ found, Loop g.Imports c
  /-- A node that a step leads back to is always on the trail, so its place needs no default. -/
  located : ∀ s, Search.Survey.Reaches g.successors (.begin g.nodes.size) s →
    ∀ w, s.colour w = .gray → (s.position? w).isSome = true
  distinct : (found.map fun c => (c.getLast?, c.head?)).Nodup
  broken : ∀ v, ¬ TransGen (Kept g.Imports found) v v
  reported_iff : g.cycles ≠ [] ↔ g.hasCycles = true
  hasCycles_iff : g.hasCycles = true ↔ ∃ v, TransGen g.Imports v v
  mem_filesInCycles_iff : ∀ p, p ∈ g.filesInCycles ↔ ∃ v, TransGen g.Imports v v ∧ g.pathAt v = p

theorem Built.hasCycles_iff {g : FileGraph} (h : g.Built) :
    g.hasCycles = true ↔ ∃ v, TransGen g.Imports v v := by
  rw [hasCycles, List.any_eq_true]
  constructor
  · rintro ⟨v, hv, hCycle⟩
    rw [Search.onCycle_iff h.successors_lt (List.mem_range.mp hv), successors_rel] at hCycle
    exact ⟨v, hCycle⟩
  · rintro ⟨v, hv⟩
    have hLt : v < g.nodes.size := by
      obtain ⟨u, _, huv⟩ := TransGen.tail'_iff.mp hv
      exact (h.imports_lt huv).2
    refine ⟨v, List.mem_range.mpr hLt, ?_⟩
    rwa [Search.onCycle_iff h.successors_lt hLt, successors_rel]

theorem Built.mem_filesInCycles_iff {g : FileGraph} (h : g.Built) (p : Path) :
    p ∈ g.filesInCycles ↔ ∃ v, TransGen g.Imports v v ∧ g.pathAt v = p := by
  rw [filesInCycles, List.mem_mergeSort, List.mem_map]
  simp only [cyclicNodes, Search.mem_looping_iff h.successors_lt, successors_rel]

theorem Built.cycles_ne_nil_iff {g : FileGraph} (h : g.Built) :
    g.cycles ≠ [] ↔ ∃ v, TransGen g.Imports v v := by
  rw [cycles, ne_eq, List.map_eq_nil_iff]
  have hReport := Search.cycles_ne_nil_iff h.successors_lt g.successors_nodup
  rwa [successors_rel] at hReport

/-- The cycles of a graph are loops closed by different imports, without which no file leads
back to itself. -/
theorem reported_cycles_break_loops {g : FileGraph} (h : g.Built) : ∃ found, g.BreakLoops found := by
  have hLoops := fun c => @Search.loop_of_mem_cycles _ _ h.successors_lt g.successors_nodup c
  have hBroken := Search.not_transGen_kept h.successors_lt g.successors_nodup
  rw [successors_rel] at hLoops hBroken
  exact ⟨Search.cycles g.successors g.nodes.size,
    { shown := rfl
      loops := hLoops
      located := fun s hs w hw => hs.position?_isSome hw
      distinct := Search.cycles_closed_distinctly h.successors_lt g.successors_nodup
      broken := hBroken
      reported_iff := h.cycles_ne_nil_iff.trans h.hasCycles_iff.symm
      hasCycles_iff := h.hasCycles_iff
      mem_filesInCycles_iff := h.mem_filesInCycles_iff }⟩

/-- Two loops that share a file, an import of a file by itself, and an import that leads out. -/
def knot : FileGraph :=
  sketch ["a", "b", "c", "d"] [("a", "b"), ("b", "a"), ("b", "c"), ("c", "a"), ("c", "c"), ("c", "d")]

theorem knot_cycles_break_loops : knot.Built ∧ ∃ found, knot.BreakLoops found :=
  ⟨sketch_built _ _, reported_cycles_break_loops (sketch_built _ _)⟩

end FileGraph

end ModuleAtlas
