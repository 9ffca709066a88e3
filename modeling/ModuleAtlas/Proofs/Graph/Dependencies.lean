import ModuleAtlas.Proofs.Graph.Reach
import Mathlib.Data.List.Permutation

/-!
# Dependencies and dependents within a number of steps

A bounded walk lists every file within its bound exactly if each of them has a neighbour
that the walk itself met in fewer steps than the bound. Up to a bound of two this is always
so. Beyond, a file that is first met on a detour may be met too late to be gone on from,
although a shorter way leads to it.
-/

namespace ModuleAtlas

set_option autoImplicit false

open Walk

namespace FileGraph

/-- A node other than the first, one to `k` steps away from it. -/
def Near (g : FileGraph) (k v w : Nat) : Prop :=
  w ≠ v ∧ ∃ n, Distance g.Imports n v w ∧ 1 ≤ n ∧ n ≤ k

end FileGraph

namespace Search

variable {next : Nat → List Nat} {size start : Nat}

theorem exists_met_of_distance_le_two (hNext : ∀ v, ∀ w ∈ next v, w < size) (hStart : start < size)
    {k n w : Nat} (h : Distance (fun v w => w ∈ next v) n start w) (hn : 1 ≤ n) (hnk : n ≤ k)
    (hk : k ≤ 2) : ∃ u d, (u, d) ∈ met next size (some k) start ∧ d < k ∧ w ∈ next u := by
  obtain ⟨n, rfl⟩ : ∃ m, n = m + 1 := ⟨n - 1, by omega⟩
  obtain ⟨u, hu, huw⟩ := h.step_back
  cases n with
  | zero =>
    cases hu.1
    exact ⟨start, 0, start_mem_met _ hNext hStart, by omega, huw⟩
  | succ n =>
    obtain rfl : n = 0 := by omega
    obtain ⟨v, hv, hvu⟩ := hu.step_back
    cases hv.1
    have hne : u ≠ start := by
      rintro rfl
      exact absurd (hu.2 (Steps.stay u)) (by decide)
    exact ⟨u, 1, mem_met_of_mem_next_start _ hNext hStart hvu hne
      (not_halts_some.mpr (by omega)), by omega, huw⟩

theorem mem_met_of_evenWithin (hNext : ∀ v, ∀ w ∈ next v, w < size) (hStart : start < size)
    {k n w : Nat} (hEven : EvenWithin (fun v w => w ∈ next v) k start)
    (h : Steps (fun v w => w ∈ next v) n start w) (hnk : n ≤ k) :
    (w, n) ∈ met next size (some k) start := by
  induction h with
  | stay v => exact start_mem_met (some k) hNext hStart
  | @on n v u w hu huw ih =>
    have hWalk := hu.on huw
    have hne : w ≠ v := by
      rintro rfl
      exact absurd (hEven w _ _ hWalk (.stay w) hnk (Nat.zero_le k)) (Nat.succ_ne_zero n)
    have hHalts : ¬ Halts (some k) n := not_halts_some.mpr hnk
    obtain ⟨d, hd⟩ := (exists_mem_met_iff (some k) hNext hStart hne).mpr
      ⟨u, n, ih hStart hEven (Nat.le_of_lt hnk), hHalts, huw⟩
    -- the mark counts the steps of a walk within the bound
    have hMark : d = n + 1 := hEven w _ _ (steps_of_mem_met (some k) hNext hStart hd) hWalk
      (mark_le_of_mem_met hNext hStart hd) hnk
    exact hMark ▸ hd

theorem exists_met_of_distance (hNext : ∀ v, ∀ w ∈ next v, w < size) (hStart : start < size)
    {k n w : Nat} (hk : k ≤ 2 ∨ EvenWithin (fun v w => w ∈ next v) k start)
    (h : Distance (fun v w => w ∈ next v) n start w) (hn : 1 ≤ n) (hnk : n ≤ k) :
    ∃ u d, (u, d) ∈ met next size (some k) start ∧ d < k ∧ w ∈ next u := by
  rcases hk with hk | hEven
  · exact exists_met_of_distance_le_two hNext hStart h hn hnk hk
  · obtain ⟨n, rfl⟩ : ∃ m, n = m + 1 := ⟨n - 1, by omega⟩
    obtain ⟨u, hu, huw⟩ := h.step_back
    exact ⟨u, n, mem_met_of_evenWithin hNext hStart hEven hu.1 (by omega), hnk, huw⟩

theorem reached_lt (limit : Option Nat) (hNext : ∀ v, ∀ w ∈ next v, w < size) (hStart : start < size) :
    ∀ w ∈ reached next size limit start, w < size := by
  intro w hw
  have hne := ((mem_reached_iff_met limit hNext hStart).mp hw).1
  obtain ⟨u, _, _, _, huw⟩ := (mem_reached_iff limit hNext hStart hne).mp hw
  exact hNext u w huw

end Search

namespace FileGraph

theorem Built.pathAt_mem_map {g : FileGraph} (h : g.Built) {vs : List Nat}
    (hvs : ∀ w ∈ vs, w < g.nodes.size) {v : Nat} (hv : v < g.nodes.size) :
    g.pathAt v ∈ vs.map g.pathAt ↔ v ∈ vs := by
  refine ⟨fun hMem => ?_, List.mem_map_of_mem⟩
  obtain ⟨w, hw, hEq⟩ := List.mem_map.mp hMem
  exact h.pathAt_inj (hvs w hw) hv hEq ▸ hw

theorem Built.near_lt {g : FileGraph} (h : g.Built) {k v w : Nat} (hNear : g.Near k v w) :
    v < g.nodes.size ∧ w < g.nodes.size := by
  obtain ⟨_, n, hDistance, hn, _⟩ := hNear
  obtain ⟨n, rfl⟩ : ∃ m, n = m + 1 := ⟨n - 1, by omega⟩
  obtain ⟨u, _, huw⟩ := hDistance.step_back
  have hFlip := distance_flip.mpr hDistance
  obtain ⟨u', _, hvu'⟩ := hFlip.step_back
  exact ⟨(h.imports_lt hvu').1, (h.imports_lt huw).2⟩

theorem Built.mem_dependencies_iff {g : FileGraph} (h : g.Built) {file : Path} {i : Nat}
    (hi : g.indexOf? file = some i) {k v : Nat} (hv : v < g.nodes.size) (hvi : v ≠ i) :
    g.pathAt v ∈ g.dependencies file (some k) ↔
      ∃ u d, (u, d) ∈ Search.met g.successors g.nodes.size (some k) i ∧ d < k ∧ g.Imports u v := by
  have hStart := (h.lt_size hi)
  simp only [dependencies, hi]
  rw [h.pathAt_mem_map (Search.reached_lt _ h.successors_lt hStart) hv,
    Search.mem_reached_iff _ h.successors_lt hStart hvi]
  simp only [Search.not_halts_some, mem_successors]

theorem Built.mem_dependents_iff {g : FileGraph} (h : g.Built) {file : Path} {i : Nat}
    (hi : g.indexOf? file = some i) {k v : Nat} (hv : v < g.nodes.size) (hvi : v ≠ i) :
    g.pathAt v ∈ g.dependents file (some k) ↔
      ∃ u d, (u, d) ∈ Search.met g.predecessors g.nodes.size (some k) i ∧ d < k ∧ g.Imports v u := by
  have hStart := (h.lt_size hi)
  simp only [dependents, hi]
  rw [h.pathAt_mem_map (Search.reached_lt _ h.predecessors_lt hStart) hv,
    Search.mem_reached_iff _ h.predecessors_lt hStart hvi]
  simp only [Search.not_halts_some, mem_predecessors]

/-- Dependencies and dependents within `k` steps are complete exactly if every file in range
has a neighbour which the walk meets in fewer than `k` steps. So they are for `k` up to two, and
where no file can be reached by walks of different lengths. -/
theorem bounded_walk_complete_iff {g : FileGraph} (h : g.Built) {file : Path} {i : Nat}
    (hi : g.indexOf? file = some i) (k : Nat) :
    ((∀ v, g.Near k i v → g.pathAt v ∈ g.dependencies file (some k)) ↔
      ∀ v, g.Near k i v → ∃ u d,
        (u, d) ∈ Search.met g.successors g.nodes.size (some k) i ∧ d < k ∧ g.Imports u v) ∧
    ((∀ v, g.Near k v i → g.pathAt v ∈ g.dependents file (some k)) ↔
      ∀ v, g.Near k v i → ∃ u d,
        (u, d) ∈ Search.met g.predecessors g.nodes.size (some k) i ∧ d < k ∧ g.Imports v u) ∧
    (k ≤ 2 ∨ EvenWithin g.Imports k i →
      ∀ v, g.Near k i v → g.pathAt v ∈ g.dependencies file (some k)) ∧
    (k ≤ 2 ∨ EvenWithin (fun w v => g.Imports v w) k i →
      ∀ v, g.Near k v i → g.pathAt v ∈ g.dependents file (some k)) := by
  have hStart := (h.lt_size hi)
  have hForward : ∀ v, g.Near k i v → (g.pathAt v ∈ g.dependencies file (some k) ↔ _) :=
    fun v hNear => h.mem_dependencies_iff hi (h.near_lt hNear).2 hNear.1
  have hBackward : ∀ v, g.Near k v i → (g.pathAt v ∈ g.dependents file (some k) ↔ _) :=
    fun v hNear => h.mem_dependents_iff hi (h.near_lt hNear).1 hNear.1.symm
  refine ⟨forall₂_congr hForward, forall₂_congr hBackward, ?_, ?_⟩
  · intro hk v hNear
    rw [hForward v hNear]
    obtain ⟨_, n, hDistance, hn, hnk⟩ := hNear
    rw [← successors_rel] at hDistance hk
    simpa only [mem_successors] using
      Search.exists_met_of_distance h.successors_lt hStart hk hDistance hn hnk
  · intro hk v hNear
    rw [hBackward v hNear]
    obtain ⟨_, n, hDistance, hn, hnk⟩ := hNear
    rw [← distance_flip, ← predecessors_rel] at hDistance
    rw [← predecessors_rel] at hk
    simpa only [mem_predecessors] using
      Search.exists_met_of_distance h.predecessors_lt hStart hk hDistance hn hnk

/-- From the first file, `e` is two steps away through `c` and met in three through `b` and `d`. -/
def detour : FileGraph :=
  sketch ["a", "b", "c", "d", "e", "f"]
    [("a", "b"), ("a", "c"), ("b", "d"), ("d", "e"), ("c", "e"), ("e", "f")]

theorem detour_edges : detour.edges =
    [⟨0, 1, []⟩, ⟨0, 2, []⟩, ⟨1, 3, []⟩, ⟨3, 4, []⟩, ⟨2, 4, []⟩, ⟨4, 5, []⟩] := by decide +kernel

theorem detour_imports {v w : Nat} : detour.Imports v w ↔
    (v, w) ∈ [(0, 1), (0, 2), (1, 3), (3, 4), (2, 4), (4, 5)] := by
  have hEdges : detour.edges.map (fun e => (e.source, e.target)) =
      [(0, 1), (0, 2), (1, 3), (3, 4), (2, 4), (4, 5)] := by rw [detour_edges]; rfl
  rw [← hEdges, List.mem_map]
  simp only [Imports, Prod.mk.injEq]

theorem detour_successors : detour.successors = fun v => [[1, 2], [3], [4], [4], [5]].getD v [] := by
  funext v
  rcases v with _ | _ | _ | _ | _ | v <;> apply successors_eq <;> simp [detour_edges]

theorem detour_near : detour.Near 3 0 5 := by
  refine ⟨by decide, 3, ⟨?_, ?_⟩, by decide, by decide⟩
  · have h₁ := Steps.on (.stay 0) (detour_imports.mpr (by decide : (0, 2) ∈ _))
    have h₂ := h₁.on (detour_imports.mpr (by decide : (2, 4) ∈ _))
    exact h₂.on (detour_imports.mpr (by decide : (4, 5) ∈ _))
  · intro n hn
    have hLayer : ∀ v w, detour.Imports v w →
        [0, 1, 1, 2, 2, 3].getD w 0 ≤ [0, 1, 1, 2, 2, 3].getD v 0 + 1 := by
      intro v w hvw
      have hAll : ∀ e ∈ [(0, 1), (0, 2), (1, 3), (3, 4), (2, 4), (4, 5)],
          [0, 1, 1, 2, 2, 3].getD e.2 0 ≤ [0, 1, 1, 2, 2, 3].getD e.1 0 + 1 := by decide
      exact hAll (v, w) (detour_imports.mp hvw)
    simpa using Steps.layer_le hLayer hn

theorem detour_complete_within_two :
    detour.Built ∧ detour.indexOf? (sketchPath "a") = some 0 ∧
      ∀ v, detour.Near 2 0 v → detour.pathAt v ∈ detour.dependencies (sketchPath "a") (some 2) := by
  have hIndex : detour.indexOf? (sketchPath "a") = some 0 := by decide +kernel
  obtain ⟨_, _, hComplete, _⟩ := bounded_walk_complete_iff (sketch_built _ _) hIndex 2
  exact ⟨sketch_built _ _, hIndex, hComplete (.inl (by decide))⟩

theorem detour_dependencies_incomplete :
    detour.Built ∧ detour.indexOf? (sketchPath "a") = some 0 ∧
      ¬ ∀ v, detour.Near 3 0 v → detour.pathAt v ∈ detour.dependencies (sketchPath "a") (some 3) := by
  refine ⟨sketch_built _ _, by decide +kernel, fun hAll => ?_⟩
  have hMem := hAll 5 detour_near
  have hIndex : detour.indexOf? (sketchPath "a") = some 0 := by decide +kernel
  have hSize : detour.nodes.size = 6 := by decide +kernel
  have hReached : Search.reached detour.successors detour.nodes.size (some 3) 0 = [2, 1, 3, 4] := by
    rw [detour_successors, hSize]
    decide
  have hList : detour.dependencies (sketchPath "a") (some 3) =
      [sketchPath "c", sketchPath "b", sketchPath "d", sketchPath "e"] := by
    simp only [dependencies, hIndex, hReached]
    decide +kernel
  have hLast : detour.pathAt 5 = sketchPath "f" := by decide +kernel
  rw [hList, hLast] at hMem
  revert hMem
  decide

end FileGraph

end ModuleAtlas
