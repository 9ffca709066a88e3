import ModuleAtlas.Proofs.Graph.Dependencies
import ModuleAtlas.Proofs.Graph.Route

/-!
# Reached files and found chains

Without a bound the depth-first walk lists exactly the files to which, or from which, the
breadth-first search finds a chain, so dependencies and dependents are converse. Under any
bound it lists each file once, never the one it starts from, and each within the bound.
-/

namespace ModuleAtlas

open Relation Walk

set_option autoImplicit false

namespace Search

variable {next : Nat → List Nat} {size start : Nat}

theorem exists_steps_of_mem_reached (limit : Option Nat) (hNext : ∀ v, ∀ w ∈ next v, w < size)
    (hStart : start < size) {w : Nat} (hw : w ∈ reached next size limit start) :
    ∃ n, Steps (fun v w => w ∈ next v) n start w ∧ ∀ k, limit = some k → n ≤ k := by
  obtain ⟨_, n, hMet⟩ := (mem_reached_iff_met limit hNext hStart).mp hw
  refine ⟨n, steps_of_mem_met limit hNext hStart hMet, ?_⟩
  rintro k rfl
  exact mark_le_of_mem_met hNext hStart hMet

end Search

namespace FileGraph

variable {g : FileGraph}

/-- A file is in a list of paths, in whatever spelling. -/
def Lists (paths : List Path) (file : Path) : Prop := ∃ p ∈ paths, p.same file = true

def reachedFiles (g : FileGraph) (next : Nat → List Nat) (file : Path) (limit : Option Nat) : List Path :=
  match g.indexOf? file with
  | some i => (Search.reached next g.nodes.size limit i).map g.pathAt
  | none => []

theorem dependencies_eq (file : Path) (limit : Option Nat) :
    g.dependencies file limit = g.reachedFiles g.successors file limit := rfl

theorem dependents_eq (file : Path) (limit : Option Nat) :
    g.dependents file limit = g.reachedFiles g.predecessors file limit := rfl

theorem mem_reachedFiles {next : Nat → List Nat} {file p : Path} {limit : Option Nat} :
    p ∈ g.reachedFiles next file limit ↔ ∃ v w, g.indexOf? file = some v ∧
      w ∈ Search.reached next g.nodes.size limit v ∧ p = g.pathAt w := by
  rw [reachedFiles]
  cases hFile : g.indexOf? file with
  | none => simp
  | some i => simp [eq_comm]

section Walk

variable (h : g.Built) {next : Nat → List Nat} (hNext : ∀ v, ∀ w ∈ next v, w < g.nodes.size)
  (file : Path) (limit : Option Nat)

include h hNext

theorem Built.lists_reachedFiles {other : Path} :
    Lists (g.reachedFiles next file limit) other ↔ ∃ v w, g.indexOf? file = some v ∧
      g.indexOf? other = some w ∧ w ∈ Search.reached next g.nodes.size limit v := by
  constructor
  · rintro ⟨p, hp, hSame⟩
    obtain ⟨v, w, hv, hw, rfl⟩ := mem_reachedFiles.mp hp
    have hLt := Search.reached_lt limit hNext (h.lt_size hv) w hw
    exact ⟨v, w, hv, h.indexOf?_eq_some_iff.mpr ⟨hLt, hSame⟩, hw⟩
  · rintro ⟨v, w, hv, hOther, hw⟩
    exact ⟨g.pathAt w, mem_reachedFiles.mpr ⟨v, w, hv, hw, rfl⟩, (h.same_pathAt hOther)⟩

theorem Built.not_lists_self : ¬ Lists (g.reachedFiles next file limit) file := by
  rw [h.lists_reachedFiles hNext]
  rintro ⟨v, w, hv, hw, hMem⟩
  obtain rfl : v = w := Option.some.inj (hv.symm.trans hw)
  have hNodup := Search.cons_reached_nodup limit hNext (h.lt_size hv)
  exact (List.nodup_cons.mp hNodup).1 hMem

theorem Built.reachedFiles_distinct :
    (g.reachedFiles next file limit).Pairwise fun p q => p.same q = false := by
  rw [reachedFiles]
  cases hFile : g.indexOf? file with
  | none => exact .nil
  | some i =>
    have hStart := (h.lt_size hFile)
    have hNodup := (Search.cons_reached_nodup limit hNext hStart).of_cons
    have hLt := Search.reached_lt limit hNext hStart
    rw [List.pairwise_map]
    refine hNodup.imp_of_mem fun {v w} hv hw hne => ?_
    rw [Bool.eq_false_iff]
    exact fun hSame => hne (h.distinct (hLt v hv) (hLt w hw) hSame)

theorem Built.lists_iff_reachable {other : Path} :
    Lists (g.reachedFiles next file none) other ↔ other.same file = false ∧
      ∃ v w, g.indexOf? file = some v ∧ g.indexOf? other = some w ∧
        ReflTransGen (fun v w => w ∈ next v) v w := by
  rw [h.lists_reachedFiles hNext, ← exists_and_left]
  refine exists_congr fun v => ?_
  rw [← exists_and_left]
  refine exists_congr fun w => ?_
  constructor
  · rintro ⟨hv, hw, hMem⟩
    obtain ⟨hne, hReach⟩ := (Search.mem_reached_none hNext (h.lt_size hv)).mp hMem
    have hApart : ¬ other.same file = true := fun hSame => hne ((h.number_eq_iff hw hv).mpr hSame)
    exact ⟨Bool.eq_false_iff.mpr hApart, hv, hw, hReach⟩
  · rintro ⟨hApart, hv, hw, hReach⟩
    have hne : w ≠ v := fun hEq => Bool.eq_false_iff.mp hApart ((h.number_eq_iff hw hv).mp hEq)
    exact ⟨hv, hw, (Search.mem_reached_none hNext (h.lt_size hv)).mpr ⟨hne, hReach⟩⟩

end Walk

theorem Built.exists_chain_iff (h : g.Built) {source target : Path} :
    (∃ chain, g.route source target = some chain) ↔ ∃ v w, g.indexOf? source = some v ∧
      g.indexOf? target = some w ∧ ReflTransGen g.Imports v w := by
  simp only [route_eq_some_iff]
  constructor
  · rintro ⟨_, v, w, c, hv, hw, hRoute, _⟩
    exact ⟨v, w, hv, hw, (h.exists_route_iff (h.lt_size hv)).mp ⟨c, hRoute⟩⟩
  · rintro ⟨v, w, hv, hw, hReach⟩
    obtain ⟨c, hRoute⟩ := (h.exists_route_iff (h.lt_size hv)).mpr hReach
    exact ⟨_, v, w, c, hv, hw, hRoute, rfl⟩

theorem Built.lists_dependencies_iff (h : g.Built) {file other : Path} :
    Lists (g.dependencies file none) other ↔
      other.same file = false ∧ ∃ chain, g.route file other = some chain := by
  rw [dependencies_eq, h.lists_iff_reachable h.successors_lt, successors_rel, h.exists_chain_iff]

theorem Built.lists_dependents_iff (h : g.Built) {file other : Path} :
    Lists (g.dependents file none) other ↔
      other.same file = false ∧ ∃ chain, g.route other file = some chain := by
  rw [dependents_eq, h.lists_iff_reachable h.predecessors_lt, predecessors_rel, h.exists_chain_iff]
  apply and_congr_right
  intro _
  constructor
  · rintro ⟨v, w, hv, hw, hReach⟩
    exact ⟨w, v, hw, hv, reflTransGen_swap.mp hReach⟩
  · rintro ⟨w, v, hw, hv, hReach⟩
    exact ⟨v, w, hv, hw, reflTransGen_swap.mpr hReach⟩

/-- How the lists of a file's dependencies and dependents go with the chains that are found. -/
structure ReachMatchesRoutes (g : FileGraph) (file : Path) : Prop where
  dependencies_iff : ∀ other, Lists (g.dependencies file none) other ↔
    other.same file = false ∧ ∃ chain, g.route file other = some chain
  dependents_iff : ∀ other, Lists (g.dependents file none) other ↔
    other.same file = false ∧ ∃ chain, g.route other file = some chain
  converse : ∀ other, Lists (g.dependencies file none) other ↔ Lists (g.dependents other none) file
  /-- No file is listed twice, under any bound. -/
  distinct : ∀ limit, (g.dependencies file limit).Pairwise (fun p q => p.same q = false) ∧
    (g.dependents file limit).Pairwise fun p q => p.same q = false
  apart : ∀ limit, ¬ Lists (g.dependencies file limit) file ∧ ¬ Lists (g.dependents file limit) file
  /-- Only files of the graph are listed, each joined by a walk of as many steps as the bound allows. -/
  dependencies_walk : ∀ limit, ∀ p ∈ g.dependencies file limit, ∃ v w n, g.indexOf? file = some v ∧
    p = g.pathAt w ∧ Steps g.Imports n v w ∧ ∀ k, limit = some k → n ≤ k
  dependents_walk : ∀ limit, ∀ p ∈ g.dependents file limit, ∃ v w n, g.indexOf? file = some v ∧
    p = g.pathAt w ∧ Steps g.Imports n w v ∧ ∀ k, limit = some k → n ≤ k

theorem reach_matches_routes (h : g.Built) (file : Path) : g.ReachMatchesRoutes file := by
  constructor
  case dependencies_iff => exact fun other => h.lists_dependencies_iff
  case dependents_iff => exact fun other => h.lists_dependents_iff
  case converse =>
    intro other
    rw [h.lists_dependencies_iff, h.lists_dependents_iff, Path.same_comm]
  case distinct =>
    exact fun limit => ⟨h.reachedFiles_distinct h.successors_lt file limit,
      h.reachedFiles_distinct h.predecessors_lt file limit⟩
  case apart =>
    exact fun limit => ⟨h.not_lists_self h.successors_lt file limit,
      h.not_lists_self h.predecessors_lt file limit⟩
  case dependencies_walk =>
    intro limit p hp
    obtain ⟨v, w, hv, hw, hPath⟩ := mem_reachedFiles.mp hp
    obtain ⟨n, hWalk, hBound⟩ := Search.exists_steps_of_mem_reached limit h.successors_lt
      (h.lt_size hv) hw
    rw [successors_rel] at hWalk
    exact ⟨v, w, n, hv, hPath, hWalk, hBound⟩
  case dependents_walk =>
    intro limit p hp
    obtain ⟨v, w, hv, hw, hPath⟩ := mem_reachedFiles.mp hp
    obtain ⟨n, hWalk, hBound⟩ := Search.exists_steps_of_mem_reached limit h.predecessors_lt
      (h.lt_size hv) hw
    rw [predecessors_rel, steps_flip] at hWalk
    exact ⟨v, w, n, hv, hPath, hWalk, hBound⟩

/-- A circle of three files with a file that hangs off it and one that stands alone. -/
def roundabout : FileGraph :=
  sketch ["a", "b", "c", "d", "e"] [("a", "b"), ("b", "c"), ("c", "a"), ("b", "d"), ("d", "d")]

theorem roundabout_reach_matches_routes :
    roundabout.Built ∧ roundabout.ReachMatchesRoutes (sketchPath "b") :=
  ⟨sketch_built _ _, reach_matches_routes (sketch_built _ _) _⟩

end FileGraph

end ModuleAtlas
