import ModuleAtlas.Graph.Cycle
import ModuleAtlas.Proofs.Graph.Reach

/-!
# Components and nodes on cycles

A component holds the nodes that lead to each other. It loops exactly if one of its nodes,
and then every one, leads back to itself.
-/

namespace ModuleAtlas.Search

open Relation Walk

set_option autoImplicit false

variable {next : Nat → List Nat} {size : Nat} (hNext : ∀ v, ∀ w ∈ next v, w < size)

include hNext

theorem mem_cons_reached {v w : Nat} (hv : v < size) :
    w ∈ v :: reached next size none v ↔ ReflTransGen (fun v w => w ∈ next v) v w := by
  rw [List.mem_cons, mem_reached_none hNext hv]
  constructor
  · rintro (rfl | ⟨_, h⟩)
    · exact .refl
    · exact h
  · intro h
    by_cases hw : w = v
    · exact .inl hw
    · exact .inr ⟨hw, h⟩

theorem onCycle_iff {v : Nat} (hv : v < size) :
    onCycle next size v = true ↔ TransGen (fun v w => w ∈ next v) v v := by
  rw [onCycle, List.any_eq_true, TransGen.tail'_iff]
  simp only [List.contains_eq_mem, decide_eq_true_eq, mem_cons_reached hNext hv]

omit hNext in
theorem spans_getD {v : Nat} (hv : v < size) :
    (spans next size).getD v [] = v :: reached next size none v := by
  simp [spans, hv]

theorem mem_component {v w : Nat} (hv : v < size) :
    w ∈ component (spans next size) v ↔ ReflTransGen (fun v w => w ∈ next v) v w ∧
      ReflTransGen (fun v w => w ∈ next v) w v := by
  rw [component, List.mem_filter, spans_getD hv, mem_cons_reached hNext hv]
  apply and_congr_right
  intro hvw
  have hw : w < size := by
    rcases hvw.cases_tail with rfl | ⟨u, _, huw⟩
    · exact hv
    · exact hNext u w huw
  rw [spans_getD hw, List.contains_eq_mem, decide_eq_true_eq, mem_cons_reached hNext hw]

theorem component_nodup {v : Nat} (hv : v < size) : (component (spans next size) v).Nodup := by
  rw [component, spans_getD hv]
  exact (cons_reached_nodup none hNext hv).filter _

theorem self_mem_component {v : Nat} (hv : v < size) : v ∈ component (spans next size) v :=
  (mem_component hNext hv).mpr ⟨.refl, .refl⟩

theorem foldl_components_spec (vs : List Nat) (hvs : ∀ v ∈ vs, v < size) (found : List (List Nat)) :
    let gathered := vs.foldl (fun found v =>
      if found.any (·.contains v) then found else found ++ [component (spans next size) v]) found
    (∀ c ∈ found, c ∈ gathered) ∧ (∀ v ∈ vs, ∃ c ∈ gathered, v ∈ c) ∧
      ∀ c ∈ gathered, c ∈ found ∨ ∃ v ∈ vs, c = component (spans next size) v := by
  induction vs generalizing found with
  | nil => exact ⟨fun c hc => hc, by simp, fun c hc => .inl hc⟩
  | cons v vs ih =>
    have hv := hvs v List.mem_cons_self
    simp only [List.foldl_cons]
    split
    · rename_i hAny
      obtain ⟨hOld, hAll, hNew⟩ := ih (fun u hu => hvs u (List.mem_cons_of_mem _ hu)) found
      refine ⟨hOld, fun u hu => ?_, fun c hc => ?_⟩
      · rcases List.mem_cons.mp hu with rfl | hu
        · -- the node is in a component gathered before
          obtain ⟨c, hc, huc⟩ := List.any_eq_true.mp hAny
          exact ⟨c, hOld c hc, by simpa using huc⟩
        · exact hAll u hu
      · exact (hNew c hc).imp_right fun ⟨u, hu, hEq⟩ => ⟨u, List.mem_cons_of_mem _ hu, hEq⟩
    · obtain ⟨hOld, hAll, hNew⟩ := ih (fun u hu => hvs u (List.mem_cons_of_mem _ hu))
        (found ++ [component (spans next size) v])
      refine ⟨fun c hc => hOld c (List.mem_append_left _ hc), fun u hu => ?_, fun c hc => ?_⟩
      · rcases List.mem_cons.mp hu with rfl | hu
        · exact ⟨_, hOld _ (by simp), self_mem_component hNext hv⟩
        · exact hAll u hu
      · rcases hNew c hc with hc | ⟨u, hu, hEq⟩
        · rcases List.mem_append.mp hc with hc | hc
          · exact .inl hc
          · exact .inr ⟨v, List.mem_cons_self, List.mem_singleton.mp hc⟩
        · exact .inr ⟨u, List.mem_cons_of_mem _ hu, hEq⟩

theorem loops_component_iff {u v : Nat} (hu : u < size) (hv : v ∈ component (spans next size) u) :
    loops next (component (spans next size) u) = true ↔ TransGen (fun v w => w ∈ next v) v v := by
  have hNodup := component_nodup hNext hu
  have hMem := fun w => @mem_component next size hNext u w hu
  obtain ⟨huv, hvu⟩ := (hMem v).mp hv
  generalize component (spans next size) u = c at *
  match c with
  | [] => exact absurd hv List.not_mem_nil
  | [x] =>
    obtain rfl : v = x := List.mem_singleton.mp hv
    have hLoops : loops next [v] = true ↔ v ∈ next v := by simp [loops]
    rw [hLoops]
    refine ⟨fun h => TransGen.single h, fun h => ?_⟩
    -- the way around stays in the component, which has no other node
    obtain ⟨w, hvw, hwv⟩ := TransGen.head'_iff.mp h
    have hw : w = v := List.mem_singleton.mp ((hMem w).mpr ⟨huv.tail hvw, hwv.trans hvu⟩)
    exact hw ▸ hvw
  | x :: y :: rest =>
    have hLoops : loops next (x :: y :: rest) = true := by simp [loops]
    refine ⟨fun _ => ?_, fun _ => hLoops⟩
    obtain ⟨z, hz, hne⟩ : ∃ z ∈ x :: y :: rest, z ≠ v := by
      by_cases hx : x = v
      · refine ⟨y, by simp, ?_⟩
        rintro rfl
        exact (List.nodup_cons.mp hNodup).1 (by simp [hx])
      · exact ⟨x, by simp, hx⟩
    obtain ⟨huz, hzu⟩ := (hMem z).mp hz
    have hvz := (reflTransGen_iff_eq_or_transGen.mp (hvu.trans huz)).resolve_left hne
    exact hvz.trans_left (hzu.trans huv)

theorem mem_looping_iff {v : Nat} :
    v ∈ ((components next size).filter (loops next)).flatten ↔
      TransGen (fun v w => w ∈ next v) v v := by
  obtain ⟨_, hAll, hNew⟩ := foldl_components_spec hNext (List.range size) (by simp) []
  change (∀ v ∈ List.range size, ∃ c ∈ components next size, v ∈ c) at hAll
  change (∀ c ∈ components next size, _) at hNew
  simp only [List.mem_flatten, List.mem_filter]
  constructor
  · rintro ⟨c, ⟨hc, hLoops⟩, hv⟩
    obtain ⟨u, hu, rfl⟩ := (hNew c hc).resolve_left List.not_mem_nil
    exact (loops_component_iff hNext (List.mem_range.mp hu) hv).mp hLoops
  · intro h
    have hv : v < size := by
      obtain ⟨u, _, huv⟩ := TransGen.tail'_iff.mp h
      exact hNext u v huv
    obtain ⟨c, hc, hvc⟩ := hAll v (List.mem_range.mpr hv)
    obtain ⟨u, hu, rfl⟩ := (hNew c hc).resolve_left List.not_mem_nil
    exact ⟨_, ⟨hc, (loops_component_iff hNext (List.mem_range.mp hu) hvc).mpr h⟩, hvc⟩

end ModuleAtlas.Search
