import ModuleAtlas.Proofs.Graph.Built
import ModuleAtlas.Proofs.Graph.Fringe

/-!
# Shortest import chains

A chain is found exactly if the second file can be reached from the first. It is the least
one in the order of chains: no chain is shorter, and among the shortest ones it goes on to
the node of smallest index wherever they part.
-/

namespace ModuleAtlas

open Relation Walk

set_option autoImplicit false

namespace Search

variable {next : Nat → List Nat} {size start goal : Nat}

section Chains

variable (hNext : ∀ v, ∀ w ∈ next v, w < size) (hSorted : ∀ v, (next v).Pairwise (· < ·))
  (hStart : start < size)

include hNext hSorted hStart

theorem retrace_of_search {links : Links}
    (hLinks : (Fringe.begin size start).search next goal = some links) :
    ∃ c, retrace links goal [] = some c ∧ Leads (fun v w => w ∈ next v) c start goal ∧
      Least (fun v w => w ∈ next v) c start goal := by
  have hBegin := Fringe.explored_begin next hStart
  obtain ⟨f, chain, order, hCharted, rfl, hGoal⟩ :=
    (hBegin.search_spec hNext hSorted goal List.not_mem_nil).2 links hLinks
  refine ⟨chain goal, ?_, hCharted.leads hGoal, fun d hd => ?_⟩
  · simpa using hCharted.retrace_eq hGoal []
  · exact (hCharted.least goal hGoal d hd).length_le_and_lex

theorem not_reachable_of_search_eq_none
    (hNone : (Fringe.begin size start).search next goal = none) :
    ¬ ReflTransGen (fun v w => w ∈ next v) start goal := by
  have hBegin := Fringe.explored_begin next hStart
  exact (hBegin.search_spec hNext hSorted goal List.not_mem_nil).1 hNone

theorem least_of_route {c : List Nat} (hRoute : route next size start goal = some c) :
    Leads (fun v w => w ∈ next v) c start goal ∧ Least (fun v w => w ∈ next v) c start goal := by
  obtain ⟨links, hLinks, hRetrace⟩ := Option.bind_eq_some_iff.mp hRoute
  obtain ⟨d, hRetrace', hLeads, hLeast⟩ := retrace_of_search hNext hSorted hStart hLinks
  cases hRetrace.symm.trans hRetrace'
  exact ⟨hLeads, hLeast⟩

theorem exists_route_iff :
    (∃ c, route next size start goal = some c) ↔ ReflTransGen (fun v w => w ∈ next v) start goal := by
  constructor
  · rintro ⟨c, hRoute⟩
    exact (least_of_route hNext hSorted hStart hRoute).1.reflTransGen
  · intro hReach
    cases hSearch : (Fringe.begin size start).search next goal with
    | none => exact absurd hReach (not_reachable_of_search_eq_none hNext hSorted hStart hSearch)
    | some links =>
      obtain ⟨c, hRetrace, _⟩ := retrace_of_search hNext hSorted hStart hSearch
      exact ⟨c, by rw [route, hSearch, Option.bind_some, hRetrace]⟩

end Chains

end Search

namespace FileGraph

structure RouteIsLeast (g : FileGraph) (source target : Path) : Prop where
  found_iff : (∃ chain, g.route source target = some chain) ↔
    ∃ v w, g.indexOf? source = some v ∧ g.indexOf? target = some w ∧ ReflTransGen g.Imports v w
  least : ∀ chain, g.route source target = some chain → ∃ v w c,
    g.indexOf? source = some v ∧ g.indexOf? target = some w ∧ chain = c.map g.pathAt ∧
      Leads g.Imports c v w ∧ Least g.Imports c v w
  /-- Following the links back from the end comes to an end, at the first file. -/
  retraced : ∀ v w links, g.indexOf? source = some v → g.indexOf? target = some w →
    (Search.Fringe.begin g.nodes.size v).search g.successors w = some links →
      ∃ c, Search.retrace links w [] = some c ∧ c.head? = some v

theorem route_eq_some_iff {g : FileGraph} {source target : Path} {chain : List Path} :
    g.route source target = some chain ↔ ∃ v w c, g.indexOf? source = some v ∧
      g.indexOf? target = some w ∧ Search.route g.successors g.nodes.size v w = some c ∧
      chain = c.map g.pathAt := by
  rw [route]
  split
  · rename_i v w hv hw
    simp [hv, hw, eq_comm]
  · rename_i hMissing
    refine ⟨fun h => (by cases h), ?_⟩
    rintro ⟨v, w, _, hv, hw, _⟩
    exact absurd hw (hMissing v w hv)

theorem Built.exists_route_iff {g : FileGraph} (h : g.Built) {v w : Nat} (hv : v < g.nodes.size) :
    (∃ c, Search.route g.successors g.nodes.size v w = some c) ↔ ReflTransGen g.Imports v w := by
  rw [← successors_rel]
  exact Search.exists_route_iff h.successors_lt g.successors_pairwise hv

theorem Built.least_of_route {g : FileGraph} (h : g.Built) {v w : Nat} (hv : v < g.nodes.size)
    {c : List Nat} (hRoute : Search.route g.successors g.nodes.size v w = some c) :
    Leads g.Imports c v w ∧ Least g.Imports c v w := by
  rw [← successors_rel]
  exact Search.least_of_route h.successors_lt g.successors_pairwise hv hRoute

/-- A chain is found exactly along the ways of the graph, and it is the least of them. -/
theorem route_isLeast {g : FileGraph} (h : g.Built) (source target : Path) :
    g.RouteIsLeast source target := by
  constructor
  case found_iff =>
    constructor
    · rintro ⟨chain, hChain⟩
      obtain ⟨v, w, c, hv, hw, hRoute, _⟩ := route_eq_some_iff.mp hChain
      have hReach := (h.exists_route_iff (h.lt_size hv)).mp ⟨c, hRoute⟩
      exact ⟨v, w, hv, hw, hReach⟩
    · rintro ⟨v, w, hv, hw, hReach⟩
      obtain ⟨c, hRoute⟩ := (h.exists_route_iff (h.lt_size hv)).mpr hReach
      exact ⟨c.map g.pathAt, route_eq_some_iff.mpr ⟨v, w, c, hv, hw, hRoute, rfl⟩⟩
  case least =>
    intro chain hChain
    obtain ⟨v, w, c, hv, hw, hRoute, rfl⟩ := route_eq_some_iff.mp hChain
    exact ⟨v, w, c, hv, hw, rfl, h.least_of_route (h.lt_size hv) hRoute⟩
  case retraced =>
    intro v w links hv _ hLinks
    obtain ⟨c, hRetrace, hLeads, _⟩ := Search.retrace_of_search h.successors_lt g.successors_pairwise
      (h.lt_size hv) hLinks
    exact ⟨c, hRetrace, hLeads.begins⟩

/-- Two shortest ways to the last file, a longer one, and one back. -/
def crossing : FileGraph :=
  sketch ["a", "b", "c", "d"]
    [("a", "c"), ("a", "b"), ("b", "c"), ("c", "d"), ("b", "d"), ("d", "a"), ("a", "a")]

theorem crossing_route_isLeast :
    crossing.Built ∧ crossing.RouteIsLeast (sketchPath "a") (sketchPath "d") :=
  ⟨sketch_built _ _, route_isLeast (sketch_built _ _) _ _⟩

end FileGraph

end ModuleAtlas
