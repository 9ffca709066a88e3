import ModuleAtlas.Proofs.Graph.Kinship
import Mathlib.Algebra.BigOperators.Group.List.Lemmas
import Mathlib.Algebra.Ring.Nat

/-!
# Files that many import and files apart

Files are ranked by how many files import them. Nodes are numbered in path order and a stable
sort leaves ties as they stood, so that of two files with as many importers the one with the
earlier path comes first. There is one edge for each importer of a file, hence the numbers of
importers add up to the number of edges.
-/

namespace ModuleAtlas

set_option autoImplicit false

section Ties

variable {α : Type} {le : α → α → Bool}

theorem filter_mergeSort (hTrans : ∀ a b c, le a b = true → le b c = true → le a c = true)
    (hTotal : ∀ a b, (le a b || le b a) = true) {tied : α → Bool}
    (hTied : ∀ a b, tied a = true → tied b = true → le a b = true) (xs : List α) :
    (xs.mergeSort le).filter tied = xs.filter tied := by
  have hSorted : (xs.filter tied).Pairwise fun a b => le a b = true := by
    apply List.pairwise_of_forall_mem_list
    intro a ha b hb
    exact hTied a b (List.mem_filter.mp ha).2 (List.mem_filter.mp hb).2
  have hSublist := (List.sublist_mergeSort hTrans hTotal hSorted List.filter_sublist).filter tied
  have hLength := ((xs.mergeSort_perm le).filter tied).length_eq
  simp only [List.filter_filter, Bool.and_self] at hSublist
  exact (hSublist.eq_of_length hLength.symm).symm

/-- A stable sort leaves what is tied in the order in which it stood. -/
theorem pairwise_mergeSort_of_pairwise (hTrans : ∀ a b c, le a b = true → le b c = true → le a c = true)
    (hTotal : ∀ a b, (le a b || le b a) = true) {r : α → α → Prop} {xs : List α} (h : xs.Pairwise r) :
    (xs.mergeSort le).Pairwise fun a b => le a b = true ∧ (le b a = true → r a b) := by
  have hSorted := List.pairwise_mergeSort hTrans hTotal xs
  rw [List.pairwise_iff_forall_sublist] at h hSorted ⊢
  intro a b hab
  refine ⟨hSorted hab, fun hba => h ?_⟩
  -- both stand among the elements tied with `b`, which the sort has left alone
  have hSelf : le b b = true := by simpa using hTotal b b
  have hTied := hab.filter fun x => le x b && le b x
  rw [filter_mergeSort hTrans hTotal] at hTied
  · simp only [List.filter_cons, hSorted hab, hba, hSelf, Bool.and_self, if_true, List.filter_nil] at hTied
    exact hTied.trans List.filter_sublist
  · intro x y hx hy
    rw [Bool.and_eq_true] at hx hy
    exact hTrans x b y hx.1 hy.2

end Ties

namespace FileGraph

variable {g : FileGraph}

def importers (g : FileGraph) (target : Path) : List Path :=
  (g.nodes.toList.map FileNode.path).filter fun f => (g.edge? f target).isSome

theorem exists_node_iff {q : Path} : (∃ m ∈ g.nodes, m.path = q) ↔ ∃ i < g.nodes.size, g.pathAt i = q := by
  simpa using congrArg (q ∈ ·) g.map_path_nodes

theorem mem_importers {f target : Path} : f ∈ g.importers target ↔
    (∃ n ∈ g.nodes, n.path = f) ∧ (g.edge? f target).isSome = true := by
  simp [importers]

theorem predecessors_pairwise (g : FileGraph) (v : Nat) : (g.predecessors v).Pairwise (· < ·) :=
  orderedNodes_pairwise _

theorem Built.map_predecessors (h : g.Built) {target : Path} {j : Nat} (hj : g.indexOf? target = some j) :
    (g.predecessors j).map g.pathAt = g.importers target := by
  rw [importers, map_path_nodes, List.filter_map]
  congr 1
  refine (g.predecessors_pairwise j).eq_of_mem_iff (List.pairwise_lt_range.filter _) fun i => ?_
  rw [mem_predecessors, List.mem_filter, List.mem_range, Function.comp_apply]
  constructor
  · intro hImports
    have hi := (h.imports_lt hImports).1
    exact ⟨hi, (h.isSome_edge?_iff (h.indexOf?_pathAt hi) hj).mpr hImports⟩
  · rintro ⟨hi, hEdge⟩
    exact (h.isSome_edge?_iff (h.indexOf?_pathAt hi) hj).mp hEdge

theorem Built.length_predecessors (h : g.Built) {i : Nat} (hi : i < g.nodes.size) :
    (g.predecessors i).length = (g.importers (g.pathAt i)).length := by
  rw [← h.map_predecessors (h.indexOf?_pathAt hi), List.length_map]

theorem Built.predecessors_perm (h : g.Built) (i : Nat) :
    (g.predecessors i).Perm ((g.edges.filter (·.target == i)).map ImportEdge.source) := by
  have hSources : ((g.edges.filter (·.target == i)).map ImportEdge.source).Nodup := by
    refine List.pairwise_map.mpr ((h.single.filter _).imp_of_mem fun {d e} hd he hOther hSource => hOther ?_)
    rw [List.mem_filter, beq_iff_eq] at hd he
    exact ⟨hSource, hd.2.trans he.2.symm⟩
  have hNodup : (g.predecessors i).Nodup := (g.predecessors_pairwise i).imp Nat.ne_of_lt
  rw [List.perm_ext_iff_of_nodup hNodup hSources]
  exact fun v => mem_orderedNodes

theorem Built.count_target (h : g.Built) (i : Nat) :
    (g.edges.map ImportEdge.target).count i = (g.predecessors i).length := by
  rw [(h.predecessors_perm i).length_eq, List.length_map, ← List.countP_eq_length_filter, List.count,
    List.countP_map]
  rfl

/-- There is one edge to a file for each file that imports it. -/
theorem Built.count_eq_importers (h : g.Built) {i : Nat} (hi : i < g.nodes.size) :
    (g.edges.map ImportEdge.target).count i = (g.importers (g.pathAt i)).length :=
  (h.count_target i).trans (h.length_predecessors hi)

/-- The nodes that edges lead to, each with the number of these. -/
def tallies (g : FileGraph) : List (Nat × Nat) :=
  ((List.range g.nodes.size).map fun i => (i, (g.edges.map ImportEdge.target).count i)).filter
    fun c => decide (0 < c.2)

/-- The files that have importers, those with the most of them first. -/
def ranking (g : FileGraph) : List (Path × Nat) :=
  (g.tallies.mergeSort fun a b => decide (b.2 ≤ a.2)).map fun c => (g.pathAt c.1, c.2)

theorem hubs_eq (g : FileGraph) (limit : Nat) : g.hubs limit = g.ranking.take limit := by
  rw [ranking, ← List.map_take]
  rfl

theorem mem_tallies {c : Nat × Nat} : c ∈ g.tallies ↔
    c.1 < g.nodes.size ∧ c.2 = (g.edges.map ImportEdge.target).count c.1 ∧ 0 < c.2 := by
  simp only [tallies, List.mem_filter, List.mem_map, List.mem_range, decide_eq_true_eq]
  constructor
  · rintro ⟨⟨i, hi, rfl⟩, hPos⟩
    exact ⟨hi, rfl, hPos⟩
  · rintro ⟨hi, hLength, hPos⟩
    exact ⟨⟨c.1, hi, by rw [← hLength]⟩, hPos⟩

theorem pairwise_tallies (g : FileGraph) : g.tallies.Pairwise fun a b => a.1 < b.1 := by
  apply List.Pairwise.filter
  exact List.pairwise_map.mpr List.pairwise_lt_range

theorem Built.mem_ranking (h : g.Built) {q : Path} {n : Nat} : (q, n) ∈ g.ranking ↔
    (∃ m ∈ g.nodes, m.path = q) ∧ n = (g.importers q).length ∧ 0 < n := by
  simp only [ranking, List.mem_map, List.mem_mergeSort, mem_tallies, exists_node_iff, Prod.mk.injEq]
  constructor
  · rintro ⟨c, ⟨hi, hLength, hPos⟩, rfl, rfl⟩
    exact ⟨⟨c.1, hi, rfl⟩, hLength.trans (h.count_eq_importers hi), hPos⟩
  · rintro ⟨⟨i, hi, rfl⟩, hLength, hPos⟩
    exact ⟨(i, n), ⟨hi, hLength.trans (h.count_eq_importers hi).symm, hPos⟩, rfl, rfl⟩

/-- The nodes with importers are the targets of edges, and each is that as often as it has importers. -/
theorem Built.sum_ranking (h : g.Built) : (g.ranking.map Prod.snd).sum = g.edges.length := by
  have hTargets : (g.tallies.map Prod.fst).Perm (g.edges.map ImportEdge.target).dedup := by
    refine (List.perm_ext_iff_of_nodup ?_ (List.nodup_dedup _)).mpr fun i => ?_
    · exact List.pairwise_map.mpr (g.pairwise_tallies.imp Nat.ne_of_lt)
    · rw [List.mem_dedup, List.mem_map]
      constructor
      · rintro ⟨c, hc, rfl⟩
        obtain ⟨-, hLength, hPos⟩ := mem_tallies.mp hc
        exact List.count_pos_iff.mp (hLength ▸ hPos)
      · intro hTarget
        obtain ⟨e, he, rfl⟩ := List.mem_map.mp hTarget
        exact ⟨(e.target, _), mem_tallies.mpr ⟨(h.inside e he).2, rfl, List.count_pos_iff.mpr hTarget⟩, rfl⟩
  have hCounts : g.tallies.map Prod.snd =
      (g.tallies.map Prod.fst).map fun i => (g.edges.map ImportEdge.target).count i := by
    rw [List.map_map]
    refine List.map_congr_left fun c hc => ?_
    rw [Function.comp_apply, (mem_tallies.mp hc).2.1]
  calc
    (g.ranking.map Prod.snd).sum = (g.tallies.map Prod.snd).sum := by
      rw [ranking, List.map_map]
      exact ((g.tallies.mergeSort_perm _).map Prod.snd).sum_eq
    _ = ((g.edges.map ImportEdge.target).dedup.map fun i =>
          (g.edges.map ImportEdge.target).count i).sum := by
      rw [hCounts]
      exact (hTargets.map _).sum_eq
    _ = g.edges.length := by
      rw [List.sum_map_count_dedup_eq_length, List.length_map]

theorem pairwise_ranking (h : (g.nodes.toList.map FileNode.path).Pairwise fun q r => Path.cmp q r = .lt) :
    g.ranking.Pairwise fun a b => b.2 < a.2 ∨ a.2 = b.2 ∧ Path.cmp a.1 b.1 = .lt := by
  have hPaths : g.tallies.Pairwise fun a b => Path.cmp (g.pathAt a.1) (g.pathAt b.1) = .lt := by
    rw [map_path_nodes] at h
    apply List.Pairwise.filter
    exact List.pairwise_map.mpr (List.pairwise_map.mp h)
  have hSorted := @pairwise_mergeSort_of_pairwise _ (fun a b : Nat × Nat => decide (b.2 ≤ a.2))
    (fun a b c => by simp only [decide_eq_true_eq]; omega)
    (fun a b => by simp only [Bool.or_eq_true, decide_eq_true_eq]; omega) _ _ hPaths
  refine List.pairwise_map.mpr (hSorted.imp fun {a b} hab => ?_)
  simp only [decide_eq_true_eq] at hab
  rcases Nat.lt_or_eq_of_le hab.1 with hMore | hEqual
  · exact .inl hMore
  · exact .inr ⟨hEqual.symm, hab.2 hEqual.ge⟩

theorem isolated_iff {i : Nat} : ((g.successors i).isEmpty && (g.predecessors i).isEmpty) = true ↔
    ∀ e ∈ g.edges, e.source ≠ i ∧ e.target ≠ i := by
  simp only [Bool.and_eq_true, List.isEmpty_iff, List.eq_nil_iff_forall_not_mem, mem_successors,
    mem_predecessors, Imports]
  constructor
  · rintro ⟨hOut, hIn⟩ e he
    constructor
    · exact fun hSource => hOut e.target ⟨e, he, hSource, rfl⟩
    · exact fun hTarget => hIn e.source ⟨e, he, rfl, hTarget⟩
  · intro hApart
    constructor
    · rintro w ⟨e, he, hSource, -⟩
      exact (hApart e he).1 hSource
    · rintro v ⟨e, he, -, hTarget⟩
      exact (hApart e he).2 hTarget

theorem Built.mem_orphans (h : g.Built) {q : Path} : q ∈ g.orphans ↔ (∃ m ∈ g.nodes, m.path = q) ∧
    ∀ e ∈ g.edges, g.pathAt e.source ≠ q ∧ g.pathAt e.target ≠ q := by
  have hEnd : ∀ {i j : Nat}, i < g.nodes.size → j < g.nodes.size → (g.pathAt j ≠ g.pathAt i ↔ j ≠ i) :=
    fun hi hj => not_congr ⟨h.pathAt_inj hj hi, congrArg g.pathAt⟩
  rw [exists_node_iff, orphans, List.mem_map]
  simp only [List.mem_filter, List.mem_range, isolated_iff]
  constructor
  · rintro ⟨i, ⟨hi, hApart⟩, rfl⟩
    refine ⟨⟨i, hi, rfl⟩, fun e he => ?_⟩
    obtain ⟨hSource, hTarget⟩ := h.inside e he
    rw [hEnd hi hSource, hEnd hi hTarget]
    exact hApart e he
  · rintro ⟨⟨i, hi, rfl⟩, hApart⟩
    refine ⟨i, ⟨hi, fun e he => ?_⟩, rfl⟩
    obtain ⟨hSource, hTarget⟩ := h.inside e he
    rw [← hEnd hi hSource, ← hEnd hi hTarget]
    exact hApart e he

theorem orphans_sublist (g : FileGraph) : g.orphans.Sublist (g.nodes.toList.map FileNode.path) := by
  rw [map_path_nodes]
  exact List.filter_sublist.map g.pathAt

/-- Where the files of a program stand in a ranking, and which of them stand apart. -/
structure RanksByImporters (p : Program) (g : FileGraph) (ranking : List (Path × Nat)) : Prop where
  hubs : ∀ limit, g.hubs limit = ranking.take limit
  ranked_iff : ∀ q n, (q, n) ∈ ranking ↔ q ∈ p.paths ∧ n = (g.importers q).length ∧ 0 < n
  ranking_ordered : ranking.Pairwise fun a b => b.2 < a.2 ∨ a.2 = b.2 ∧ Path.cmp a.1 b.1 = .lt
  importer_iff : ∀ f ∈ p.files, ∀ k ∈ p.files, f.path ∈ g.importers k.path ↔ p.Requires f k
  importers_ordered : ∀ q, (g.importers q).Pairwise fun r s => Path.cmp r s = .lt
  total : (ranking.map Prod.snd).sum = g.edges.length
  orphan_iff : ∀ q, q ∈ g.orphans ↔ q ∈ p.paths ∧ ∀ e ∈ g.edges, g.pathAt e.source ≠ q ∧ g.pathAt e.target ≠ q
  orphans_ordered : g.orphans.Pairwise fun q r => Path.cmp q r = .lt

theorem paths_ofProgram {p : Program} (h : p.Read) : (ofProgram p).nodes.toList.map FileNode.path = p.paths := by
  rw [nodes_ofProgram h, List.map_map]
  rfl

theorem hubs_rank_by_importers {p : Program} (h : p.Read) : ∃ ranking, RanksByImporters p (ofProgram p) ranking := by
  have hBuilt := ofProgram_built p
  have hNodes := paths_ofProgram h
  have hMem : ∀ q, (∃ n ∈ (ofProgram p).nodes, n.path = q) ↔ q ∈ p.paths := fun q => by
    rw [← hNodes]
    simp
  have hOrdered : ((ofProgram p).nodes.toList.map FileNode.path).Pairwise fun q r => Path.cmp q r = .lt := by
    rw [hNodes]
    exact List.pairwise_map.mpr h.ordered
  refine ⟨(ofProgram p).ranking, ?_⟩
  constructor
  case hubs => exact (ofProgram p).hubs_eq
  case ranked_iff =>
    intro q n
    rw [hBuilt.mem_ranking, hMem]
  case ranking_ordered => exact pairwise_ranking hOrdered
  case importer_iff =>
    intro f hf k hk
    rw [mem_importers, hMem, isSome_edge?_ofProgram h hf hk]
    exact and_iff_right (List.mem_map_of_mem hf)
  case importers_ordered => exact fun q => hOrdered.filter _
  case total => exact hBuilt.sum_ranking
  case orphan_iff =>
    intro q
    rw [hBuilt.mem_orphans, hMem]
  case orphans_ordered => exact hOrdered.sublist (ofProgram p).orphans_sublist

/-- A file that two import, one that imports itself, and one apart. -/
def crowd : Program :=
  .ofSources (.ofString "/app")
    ([(.ofString "/app/d.js", ""),
      (.ofString "/app/b.js", "export const x = 1;\n"),
      (.ofString "/app/c.js", "export { x } from './b';\nimport { x } from './b';\nimport './e';\n"),
      (.ofString "/app/a.js", "import './b';\nimport './a';\n")].map fun t => (t.1, .ofString t.2)) []

set_option maxRecDepth 100000 in
theorem crowd_ranked_by_importers : crowd.Read ∧
    (ofProgram crowd).importers (.ofString "/app/b.js") = [.ofString "/app/a.js", .ofString "/app/c.js"] ∧
    (ofProgram crowd).importers (.ofString "/app/a.js") = [.ofString "/app/a.js"] ∧
    (ofProgram crowd).edges.length = 3 ∧ ∃ ranking, RanksByImporters crowd (ofProgram crowd) ranking :=
  ⟨Program.read_ofSources _ _ _, by decide +kernel, by decide +kernel, by decide +kernel,
    hubs_rank_by_importers (Program.read_ofSources _ _ _)⟩

end FileGraph

end ModuleAtlas
