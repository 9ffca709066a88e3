import ModuleAtlas.Graph.Kinship
import ModuleAtlas.Proofs.Graph.OfProgram

/-!
# Files that import the same files

Two files are related if there are files that both of them import, and at least as many as were
asked for. A record lists these files in path order. Neither the condition nor the list depends on
which of the two files is asked about.
-/

namespace ModuleAtlas

set_option autoImplicit false

namespace Path

theorem cmp_congr_left {p q : Path} (h : p.same q = true) (r : Path) : cmp p r = cmp q r := by
  rw [cmp, cmp, same_iff.mp h]

theorem cmp_congr_right {p q : Path} (h : p.same q = true) (r : Path) : cmp r p = cmp r q := by
  rw [cmp, cmp, same_iff.mp h]

theorem le_iff {p q : Path} : le p q = true ↔ cmp p q = .lt ∨ p.same q = true := by
  rw [le, bne_iff_ne, ← cmp_eq_iff_same]
  cases cmp p q <;> decide

theorem le_transitive {p q r : Path} (hpq : le p q = true) (hqr : le q r = true) : le p r = true := by
  rw [le_iff] at hpq hqr ⊢
  rcases hpq with hpq | hpq
  · rcases hqr with hqr | hqr
    · exact .inl (cmp_lt_trans hpq hqr)
    · exact .inl (cmp_congr_right hqr p ▸ hpq)
  · rw [cmp_congr_left hpq, same_iff, same_iff.mp hpq, ← same_iff]
    exact hqr

theorem le_or_le (p q : Path) : le p q = true ∨ le q p = true := by
  rw [le_iff, le_iff]
  cases hCmp : cmp p q with
  | lt => exact .inl (.inl rfl)
  | eq => exact .inl (.inr (cmp_eq_iff_same.mp hCmp))
  | gt => exact .inr (.inl (cmp_eq_gt_iff.mp hCmp))

end Path

namespace RelatedFile

/-- Strictly earlier: it shares more, or as much and has the earlier path. -/
def Before (a b : RelatedFile) : Prop :=
  b.shared.length < a.shared.length ∨
    a.shared.length = b.shared.length ∧ Path.cmp a.path b.path = .lt

theorem le_iff {a b : RelatedFile} : le a b = true ↔ b.shared.length < a.shared.length ∨
    a.shared.length = b.shared.length ∧ Path.le a.path b.path = true := by
  simp [le]

theorem le_transitive {a b c : RelatedFile} (hab : le a b = true) (hbc : le b c = true) :
    le a c = true := by
  rw [le_iff] at hab hbc ⊢
  rcases hab with hab | ⟨hEq, hab⟩ <;> rcases hbc with hbc | ⟨hEq', hbc⟩
  · exact .inl (by omega)
  · exact .inl (by omega)
  · exact .inl (by omega)
  · exact .inr ⟨by omega, Path.le_transitive hab hbc⟩

theorem le_or_le (a b : RelatedFile) : (le a b || le b a) = true := by
  rw [Bool.or_eq_true, le_iff, le_iff]
  rcases Nat.lt_trichotomy a.shared.length b.shared.length with h | h | h
  · exact .inr (.inl h)
  · exact (Path.le_or_le a.path b.path).imp (fun hLe => .inr ⟨h, hLe⟩) fun hLe => .inr ⟨h.symm, hLe⟩
  · exact .inl (.inl h)

theorem before_mergeSort {records : List RelatedFile}
    (h : records.Pairwise fun a b => a.path.same b.path = false) :
    (records.mergeSort le).Pairwise Before := by
  have hDistinct := h.perm (records.mergeSort_perm le).symm fun hab => by rwa [Path.same_comm]
  have hSorted := @List.pairwise_mergeSort RelatedFile le (fun _ _ _ => le_transitive) le_or_le records
  refine (hSorted.and hDistinct).imp fun {a b} hBoth => ?_
  obtain ⟨hLe, hOther⟩ := hBoth
  rcases le_iff.mp hLe with hMore | ⟨hEq, hLe⟩
  · exact .inl hMore
  · rcases Path.le_iff.mp hLe with hLt | hSame
    · exact .inr ⟨hEq, hLt⟩
    · rw [hOther] at hSame
      cases hSame

end RelatedFile

namespace FileGraph

variable {g : FileGraph}

def commonTargets (g : FileGraph) (a b : Path) : List Path :=
  (g.nodes.toList.map FileNode.path).filter fun t => (g.edge? a t).isSome && (g.edge? b t).isSome

theorem mem_commonTargets {a b t : Path} : t ∈ g.commonTargets a b ↔
    (∃ n ∈ g.nodes, n.path = t) ∧ (g.edge? a t).isSome = true ∧ (g.edge? b t).isSome = true := by
  simp [commonTargets]

theorem commonTargets_comm (g : FileGraph) (a b : Path) : g.commonTargets a b = g.commonTargets b a := by
  refine List.filter_congr fun t _ => ?_
  rw [Bool.and_comm]

theorem commonTargets_congr {b c : Path} (h : b.same c = true) (a : Path) :
    g.commonTargets a b = g.commonTargets a c := by
  simp only [commonTargets, edge?_eq, g.indexOf?_congr h]

theorem map_path_nodes (g : FileGraph) :
    g.nodes.toList.map FileNode.path = (List.range g.nodes.size).map g.pathAt := by
  apply List.ext_getElem
  · simp
  · intro i hi _
    have hSize : i < g.nodes.size := by simpa using hi
    simp [pathAt, Array.getD, hSize]

theorem Built.isSome_edge?_iff (h : g.Built) {a b : Path} {i j : Nat} (ha : g.indexOf? a = some i)
    (hb : g.indexOf? b = some j) : (g.edge? a b).isSome = true ↔ g.Imports i j := by
  rw [Option.isSome_iff_exists]
  constructor
  · rintro ⟨e, he⟩
    obtain ⟨hMem, hSource, hTarget⟩ := h.edge?_eq_some_iff.mp he
    exact ⟨e, hMem, Option.some.inj (hSource.symm.trans ha), Option.some.inj (hTarget.symm.trans hb)⟩
  · rintro ⟨e, he, rfl, rfl⟩
    exact ⟨e, h.edge?_eq_some_iff.mpr ⟨he, ha, hb⟩⟩

/-- The numbers that two nodes share stand for the files that both import. -/
theorem Built.map_sharedTargets (h : g.Built) {a b : Path} {i j : Nat} (ha : g.indexOf? a = some i)
    (hb : g.indexOf? b = some j) : (g.sharedTargets i j).map g.pathAt = g.commonTargets a b := by
  rw [commonTargets, map_path_nodes, List.filter_map]
  congr 1
  have hShared : (g.sharedTargets i j).Pairwise (· < ·) := (g.successors_pairwise j).filter _
  refine hShared.eq_of_mem_iff (List.pairwise_lt_range.filter _) fun t => ?_
  simp only [sharedTargets, List.mem_filter, List.contains_eq_mem, decide_eq_true_eq, mem_successors,
    List.mem_range, Function.comp_apply, Bool.and_eq_true]
  constructor
  · rintro ⟨hj, hi⟩
    have ht := (h.imports_lt hi).2
    exact ⟨ht, (h.isSome_edge?_iff ha (h.indexOf?_pathAt ht)).mpr hi,
      (h.isSome_edge?_iff hb (h.indexOf?_pathAt ht)).mpr hj⟩
  · rintro ⟨ht, hi, hj⟩
    exact ⟨(h.isSome_edge?_iff hb (h.indexOf?_pathAt ht)).mp hj,
      (h.isSome_edge?_iff ha (h.indexOf?_pathAt ht)).mp hi⟩

theorem commonTargets_of_unknown {a : Path} (h : g.indexOf? a = none) (b : Path) :
    g.commonTargets a b = [] := by
  simp [commonTargets, edge?_eq, h]

/-- The records of a file before they are put in order. -/
def relatives (g : FileGraph) (i least : Nat) : List RelatedFile :=
  (List.range g.nodes.size).filterMap fun j =>
    if j == i || (g.sharedTargets i j).length < max least 1 then none
    else some ⟨g.pathAt j, (g.sharedTargets i j).map g.pathAt⟩

theorem related_eq {file : Path} {i : Nat} (h : g.indexOf? file = some i) (least : Nat) :
    g.related file least = (g.relatives i least).mergeSort RelatedFile.le := by
  rw [related, h]
  rfl

theorem mem_relatives {i least : Nat} {r : RelatedFile} : r ∈ g.relatives i least ↔
    ∃ j < g.nodes.size, j ≠ i ∧ max least 1 ≤ (g.sharedTargets i j).length ∧
      r = ⟨g.pathAt j, (g.sharedTargets i j).map g.pathAt⟩ := by
  simp only [relatives, List.mem_filterMap, List.mem_range, Option.ite_none_left_eq_some, Bool.or_eq_true,
    beq_iff_eq, decide_eq_true_eq, not_or, Nat.not_lt, Option.some.injEq, and_assoc]
  simp only [@eq_comm _ _ r]

theorem Built.relatives_distinct (h : g.Built) (i least : Nat) :
    (g.relatives i least).Pairwise fun a b => a.path.same b.path = false := by
  have hPaths : (List.range g.nodes.size).Pairwise fun j k => (g.pathAt j).same (g.pathAt k) = false := by
    refine List.pairwise_lt_range.imp_of_mem fun {j k} hj hk hLt => Bool.eq_false_iff.mpr fun hSame => ?_
    exact Nat.ne_of_lt hLt (h.distinct (List.mem_range.mp hj) (List.mem_range.mp hk) hSame)
  refine hPaths.filterMap _ fun j k hOther a ha b hb => ?_
  cases (Option.ite_none_left_eq_some.mp ha).2
  cases (Option.ite_none_left_eq_some.mp hb).2
  exact hOther

theorem Built.mem_related (h : g.Built) {file : Path} {least : Nat} {r : RelatedFile} :
    r ∈ g.related file least ↔ (∃ n ∈ g.nodes, n.path = r.path) ∧ r.path.same file = false ∧
      r.shared = g.commonTargets file r.path ∧ max least 1 ≤ r.shared.length := by
  have hNodes : (∃ n ∈ g.nodes, n.path = r.path) ↔ ∃ j < g.nodes.size, g.pathAt j = r.path := by
    simpa using congrArg (r.path ∈ ·) g.map_path_nodes
  cases hIndex : g.indexOf? file with
  | none =>
    -- nothing is shared with a file that is not there
    rw [commonTargets_of_unknown hIndex, related, hIndex]
    refine ⟨fun hr => absurd hr List.not_mem_nil, fun ⟨_, _, hShared, hLeast⟩ => ?_⟩
    rw [hShared, List.length_nil] at hLeast
    omega
  | some i =>
    have hShared : ∀ j < g.nodes.size, (g.sharedTargets i j).map g.pathAt = g.commonTargets file (g.pathAt j) :=
      fun j hj => h.map_sharedTargets hIndex (h.indexOf?_pathAt hj)
    have hOther : ∀ j < g.nodes.size, j ≠ i ↔ (g.pathAt j).same file = false := fun j hj => by
      rw [ne_eq, h.number_eq_iff (h.indexOf?_pathAt hj) hIndex, Bool.not_eq_true]
    rw [related_eq hIndex, List.mem_mergeSort, mem_relatives, hNodes]
    constructor
    · rintro ⟨j, hj, hNe, hLeast, rfl⟩
      exact ⟨⟨j, hj, rfl⟩, (hOther j hj).mp hNe, hShared j hj, by rwa [List.length_map]⟩
    · rintro ⟨⟨j, hj, hPath⟩, hSame, hList, hLeast⟩
      rw [← hPath] at hSame hList
      refine ⟨j, hj, (hOther j hj).mpr hSame, ?_, ?_⟩
      · rwa [hList, ← hShared j hj, List.length_map] at hLeast
      · rw [hShared j hj, ← hList, hPath]

theorem Built.related_distinct (h : g.Built) (file : Path) (least : Nat) :
    (g.related file least).Pairwise fun r s => r.path.same s.path = false := by
  cases hIndex : g.indexOf? file with
  | none =>
    rw [related, hIndex]
    exact .nil
  | some i =>
    rw [related_eq hIndex]
    refine (h.relatives_distinct i least).perm (List.mergeSort_perm _ _).symm fun hOther => ?_
    rwa [Path.same_comm]

theorem Built.related_before (h : g.Built) (file : Path) (least : Nat) :
    (g.related file least).Pairwise RelatedFile.Before := by
  cases hIndex : g.indexOf? file with
  | none =>
    rw [related, hIndex]
    exact .nil
  | some i =>
    rw [related_eq hIndex]
    exact RelatedFile.before_mergeSort (h.relatives_distinct i least)

theorem Built.mem_related_comm (h : g.Built) {m n : FileNode} (hm : m ∈ g.nodes) (hn : n ∈ g.nodes)
    (least : Nat) (shared : List Path) : ⟨n.path, shared⟩ ∈ g.related m.path least ↔
      ⟨m.path, shared⟩ ∈ g.related n.path least := by
  rw [h.mem_related, h.mem_related, Path.same_comm, g.commonTargets_comm]
  exact ⟨fun hRecord => ⟨⟨m, hm, rfl⟩, hRecord.2⟩, fun hRecord => ⟨⟨n, hn, rfl⟩, hRecord.2⟩⟩

/-- What is said of the files that import the same files. -/
structure RelatesBySharedTargets (g : FileGraph) : Prop where
  /-- What two files share are the files to which both have an edge. -/
  target_iff : ∀ a b t, t ∈ g.commonTargets a b ↔
    (∃ n ∈ g.nodes, n.path = t) ∧ (∃ e, g.edge? a t = some e) ∧ ∃ e, g.edge? b t = some e
  targets_ordered : ∀ a b, (g.commonTargets a b).Pairwise fun s t => Path.cmp s t = .lt
  related_iff : ∀ file least, ∀ n ∈ g.nodes, (∃ r ∈ g.related file least, r.path.same n.path = true) ↔
    n.path.same file = false ∧ max least 1 ≤ (g.commonTargets file n.path).length
  record : ∀ file least, ∀ r ∈ g.related file least, (∃ n ∈ g.nodes, n.path = r.path) ∧
    r.shared = g.commonTargets file r.path
  ordered : ∀ file least, (g.related file least).Pairwise RelatedFile.Before
  distinct : ∀ file least, (g.related file least).Pairwise fun r s => r.path.same s.path = false
  symmetric : ∀ m ∈ g.nodes, ∀ n ∈ g.nodes, ∀ least shared,
    ⟨n.path, shared⟩ ∈ g.related m.path least ↔ ⟨m.path, shared⟩ ∈ g.related n.path least

theorem related_by_shared_targets {p : Program} (h : p.Read) : (ofProgram p).RelatesBySharedTargets := by
  have hBuilt := ofProgram_built p
  constructor
  case target_iff =>
    intro a b t
    rw [mem_commonTargets, Option.isSome_iff_exists, Option.isSome_iff_exists]
  case targets_ordered =>
    intro a b
    rw [commonTargets, nodes_ofProgram h, List.map_map]
    exact (List.pairwise_map.mpr h.ordered).filter _
  case related_iff =>
    intro file least n hn
    constructor
    · rintro ⟨r, hr, hSame⟩
      obtain ⟨-, hOther, hShared, hLeast⟩ := hBuilt.mem_related.mp hr
      rw [hShared, commonTargets_congr hSame] at hLeast
      rw [Path.same, Path.same_iff.mp hSame] at hOther
      exact ⟨hOther, hLeast⟩
    · rintro ⟨hOther, hLeast⟩
      exact ⟨⟨n.path, _⟩, hBuilt.mem_related.mpr ⟨⟨n, hn, rfl⟩, hOther, rfl, hLeast⟩, n.path.same_self⟩
  case record =>
    intro file least r hr
    obtain ⟨hNode, -, hShared, -⟩ := hBuilt.mem_related.mp hr
    exact ⟨hNode, hShared⟩
  case ordered => exact hBuilt.related_before
  case distinct => exact hBuilt.related_distinct
  case symmetric => exact fun m hm n hn => hBuilt.mem_related_comm hm hn

/-- Two files that import the same three, one of which is the second of them. -/
def siblings : Program :=
  .ofSources (.ofString "/app")
    ([(.ofString "/app/d.js", ""),
      (.ofString "/app/b.js", "import './d';\nimport './c';\nimport './b';\n"),
      (.ofString "/app/a.js", "import './b';\nimport './c';\nimport './d';\nimport './e';\n"),
      (.ofString "/app/c.js", "import './d';\n")].map fun t => (t.1, .ofString t.2)) []

set_option maxRecDepth 100000 in
theorem siblings_related_by_shared_targets : siblings.Read ∧
    (ofProgram siblings).commonTargets (.ofString "/app/a.js") (.ofString "/app/b.js") =
      [.ofString "/app/b.js", .ofString "/app/c.js", .ofString "/app/d.js"] ∧
    (ofProgram siblings).commonTargets (.ofString "/app/a.js") (.ofString "/app/c.js") =
      [.ofString "/app/d.js"] ∧
    (ofProgram siblings).RelatesBySharedTargets :=
  ⟨Program.read_ofSources _ _ _, by decide +kernel, by decide +kernel,
    related_by_shared_targets (Program.read_ofSources _ _ _)⟩

end FileGraph

end ModuleAtlas
