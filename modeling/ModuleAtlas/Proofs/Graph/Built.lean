import ModuleAtlas.Graph.Basic
import ModuleAtlas.Proofs.Collection

/-!
# Graphs built from files and edges

Every graph comes about by adding files and edges to an empty one. In such a graph the table of
numbers and the nodes agree, hence no two nodes have the same path, and every edge joins nodes
of the graph. The neighbours that a search sees are exactly the ends of edges, in increasing order.
-/

namespace ModuleAtlas

set_option autoImplicit false

namespace Path

theorem same_iff {p q : Path} : p.same q = true ↔ p.parts = q.parts := by simp [same]

@[simp] theorem same_self (p : Path) : p.same p = true := same_iff.mpr rfl

theorem keyed_same : Table.Keyed same parts := fun _ _ => same_iff

theorem same_comm (p q : Path) : p.same q = q.same p := by
  rw [Bool.eq_iff_iff, same_iff, same_iff, eq_comm]

end Path

namespace FileGraph

theorem mem_orderedNodes {v : Nat} {vs : List Nat} : v ∈ orderedNodes vs ↔ v ∈ vs := by
  simp [orderedNodes, Text.mem_dropRepeats]

theorem orderedNodes_pairwise (vs : List Nat) : (orderedNodes vs).Pairwise (· < ·) :=
  Text.pairwise_sorted vs

def Imports (g : FileGraph) (v w : Nat) : Prop := ∃ e ∈ g.edges, e.source = v ∧ e.target = w

theorem mem_successors {g : FileGraph} {v w : Nat} : w ∈ g.successors v ↔ g.Imports v w := by
  simp [successors, mem_orderedNodes, Imports, and_assoc]

theorem mem_predecessors {g : FileGraph} {v w : Nat} : v ∈ g.predecessors w ↔ g.Imports v w := by
  simp only [predecessors, mem_orderedNodes, Imports, List.mem_map, List.mem_filter, beq_iff_eq]
  constructor
  · rintro ⟨e, ⟨he, hw⟩, hv⟩
    exact ⟨e, he, hv, hw⟩
  · rintro ⟨e, he, hv, hw⟩
    exact ⟨e, ⟨he, hw⟩, hv⟩

theorem successors_rel (g : FileGraph) : (fun v w => w ∈ g.successors v) = g.Imports := by
  funext v w
  exact propext mem_successors

theorem predecessors_rel (g : FileGraph) :
    (fun w v => v ∈ g.predecessors w) = fun w v => g.Imports v w := by
  funext w v
  exact propext mem_predecessors

theorem successors_pairwise (g : FileGraph) (v : Nat) : (g.successors v).Pairwise (· < ·) :=
  orderedNodes_pairwise _

/-- Targets that come in order are the successors as they stand. -/
theorem successors_eq {g : FileGraph} {v : Nat} {vs : List Nat}
    (h : (g.edges.filter (·.source == v)).map ImportEdge.target = vs) (hOrdered : vs.Pairwise (· < ·)) :
    g.successors v = vs := by
  refine (g.successors_pairwise v).eq_of_mem_iff hOrdered fun w => ?_
  rw [successors, h, mem_orderedNodes]

theorem successors_nodup (g : FileGraph) (v : Nat) : (g.successors v).Nodup :=
  (g.successors_pairwise v).imp fun h => Nat.ne_of_lt h

inductive Built : FileGraph → Prop where
  | empty (root : Path) : Built (empty root)
  | addFile {g : FileGraph} (h : Built g) (n : FileNode) : Built (g.addFile n)
  | addEdge {g : FileGraph} (h : Built g) (source target : Path) (symbols : List String) :
      Built (g.addEdge source target symbols)

theorem indexOf?_congr (g : FileGraph) {p q : Path} (h : p.same q = true) :
    g.indexOf? p = g.indexOf? q :=
  Table.value?_congr Path.keyed_same g.numbers h

theorem indexOf?_addFile (g : FileGraph) (n : FileNode) (p : Path) :
    (g.addFile n).indexOf? p =
      (g.indexOf? p).or (if n.path.same p then some g.nodes.size else none) := by
  unfold addFile
  split
  · rename_i hKnown
    split
    · rename_i hSame
      rw [contains, g.indexOf?_congr hSame] at hKnown
      obtain ⟨i, hi⟩ := Option.isSome_iff_exists.mp hKnown
      rw [hi, Option.some_or]
    · rw [Option.or_none]
  · rename_i hNew
    rw [contains, Bool.not_eq_true, Option.isSome_eq_false_iff, Option.isNone_iff_eq_none] at hNew
    rw [indexOf?, Table.value?_put Path.keyed_same]
    split
    · rename_i hSame
      rw [← g.indexOf?_congr hSame, hNew, Option.none_or]
    · rw [Option.or_none, indexOf?]

theorem nodes_addEdge (g : FileGraph) (source target : Path) (symbols : List String) :
    (g.addEdge source target symbols).nodes = g.nodes := by
  unfold addEdge
  split <;> rfl

theorem numbers_addEdge (g : FileGraph) (source target : Path) (symbols : List String) :
    (g.addEdge source target symbols).numbers = g.numbers := by
  unfold addEdge
  split <;> rfl

theorem indexOf?_addEdge (g : FileGraph) (source target : Path) (symbols : List String) (p : Path) :
    (g.addEdge source target symbols).indexOf? p = g.indexOf? p := by
  rw [indexOf?, numbers_addEdge, indexOf?]

/-- The table of numbers and the nodes agree: a node has the number under which its path is
entered, and every entry leads to the node of its path. -/
structure Numbered (g : FileGraph) : Prop where
  entered : ∀ i n, g.nodes[i]? = some n → g.indexOf? n.path = some i
  leads : ∀ p i, (p, i) ∈ g.numbers → ∃ n, g.nodes[i]? = some n ∧ n.path = p
  apart : g.numbers.Apart Path.same
  size : g.numbers.length = g.nodes.size

theorem Numbered.addFile {g : FileGraph} (h : g.Numbered) (n : FileNode) : (g.addFile n).Numbered := by
  have hIndex := g.indexOf?_addFile n
  revert hIndex
  unfold FileGraph.addFile
  split
  · exact fun _ => h
  · rename_i hNew
    intro hIndex
    rw [contains, Bool.not_eq_true, Option.isSome_eq_false_iff, Option.isNone_iff_eq_none] at hNew
    have hEntries : g.numbers.put Path.same n.path g.nodes.size = g.numbers ++ [(n.path, g.nodes.size)] :=
      Table.put_of_value?_eq_none hNew _
    constructor
    case entered =>
      intro i m hm
      rw [Array.getElem?_push] at hm
      split at hm
      · rename_i hi
        cases hm
        rw [hIndex, hNew, Option.none_or, if_pos n.path.same_self, hi]
      · rw [hIndex, h.entered i m hm, Option.some_or]
    case leads =>
      intro p i hp
      rw [hEntries, List.mem_append, List.mem_singleton] at hp
      rcases hp with hp | hp
      · obtain ⟨m, hm, hPath⟩ := h.leads p i hp
        have hi := (Array.getElem?_eq_some_iff.mp hm).1
        exact ⟨m, by rw [Array.getElem?_push_lt hi, ← hm, Array.getElem?_eq_getElem hi], hPath⟩
      · cases hp
        exact ⟨n, Array.getElem?_push_size, rfl⟩
    case apart => exact h.apart.alter _ _
    case size => rw [hEntries, List.length_append, h.size, Array.size_push, List.length_singleton]

theorem Numbered.addEdge {g : FileGraph} (h : g.Numbered) (source target : Path) (symbols : List String) :
    (g.addEdge source target symbols).Numbered := by
  constructor
  case entered =>
    intro i n hn
    rw [nodes_addEdge] at hn
    rw [indexOf?_addEdge, h.entered i n hn]
  case leads =>
    intro p i hp
    rw [numbers_addEdge] at hp
    rw [nodes_addEdge]
    exact h.leads p i hp
  case apart => rw [numbers_addEdge]; exact h.apart
  case size => rw [numbers_addEdge, nodes_addEdge, h.size]

theorem Built.numbered {g : FileGraph} (h : g.Built) : g.Numbered := by
  induction h with
  | empty root => exact ⟨fun i n hn => by simp [FileGraph.empty] at hn, fun p i hp => (by cases hp), .nil, rfl⟩
  | addFile _ n ih => exact ih.addFile n
  | addEdge _ source target symbols ih => exact ih.addEdge source target symbols

theorem pathAt_of_getElem? {g : FileGraph} {i : Nat} {n : FileNode} (h : g.nodes[i]? = some n) :
    g.pathAt i = n.path := by
  rw [pathAt, Array.getD_eq_getD_getElem?, h, Option.getD_some]

theorem Numbered.indexOf?_eq_some_iff {g : FileGraph} (h : g.Numbered) {p : Path} {i : Nat} :
    g.indexOf? p = some i ↔ i < g.nodes.size ∧ (g.pathAt i).same p = true := by
  constructor
  · intro hIndex
    obtain ⟨q, hq, hSame⟩ := Table.mem_of_value? hIndex
    obtain ⟨n, hn, rfl⟩ := h.leads q i hq
    exact ⟨(Array.getElem?_eq_some_iff.mp hn).1, pathAt_of_getElem? hn ▸ hSame⟩
  · rintro ⟨hi, hSame⟩
    have hn := Array.getElem?_eq_getElem hi
    rw [pathAt_of_getElem? hn] at hSame
    rw [← g.indexOf?_congr hSame, h.entered i _ hn]

section

variable {g : FileGraph} {p q : Path} {i j : Nat}

theorem Built.indexOf?_eq_some_iff (h : g.Built) :
    g.indexOf? p = some i ↔ i < g.nodes.size ∧ (g.pathAt i).same p = true :=
  h.numbered.indexOf?_eq_some_iff

theorem Built.lt_size (h : g.Built) (hi : g.indexOf? p = some i) : i < g.nodes.size :=
  (h.indexOf?_eq_some_iff.mp hi).1

theorem Built.same_pathAt (h : g.Built) (hi : g.indexOf? p = some i) : (g.pathAt i).same p = true :=
  (h.indexOf?_eq_some_iff.mp hi).2

theorem Built.indexOf?_pathAt (h : g.Built) (hi : i < g.nodes.size) : g.indexOf? (g.pathAt i) = some i :=
  h.indexOf?_eq_some_iff.mpr ⟨hi, Path.same_self _⟩

theorem Built.number_eq_iff (h : g.Built) (hi : g.indexOf? p = some i) (hj : g.indexOf? q = some j) :
    i = j ↔ p.same q = true := by
  constructor
  · rintro rfl
    have hp := Path.same_iff.mp (h.same_pathAt hi)
    have hq := Path.same_iff.mp (h.same_pathAt hj)
    exact Path.same_iff.mpr (hp.symm.trans hq)
  · intro hSame
    rw [g.indexOf?_congr hSame, hj] at hi
    exact (Option.some.inj hi).symm

theorem Built.distinct (h : g.Built) (hi : i < g.nodes.size) (hj : j < g.nodes.size)
    (hSame : (g.pathAt i).same (g.pathAt j) = true) : i = j :=
  (h.number_eq_iff (h.indexOf?_pathAt hi) (h.indexOf?_pathAt hj)).mpr hSame

theorem Built.pathAt_inj (h : g.Built) (hi : i < g.nodes.size) (hj : j < g.nodes.size)
    (hEq : g.pathAt i = g.pathAt j) : i = j :=
  h.distinct hi hj (Path.same_iff.mpr (congrArg Path.parts hEq))

end

theorem mem_mergeEdge {a b : Nat} {symbols : List String} {edges : List ImportEdge} {e : ImportEdge}
    (he : e ∈ mergeEdge a b symbols edges) :
    (e.source = a ∧ e.target = b) ∨ e ∈ edges := by
  induction edges with
  | nil =>
    rw [mergeEdge, List.mem_singleton] at he
    exact .inl (by simp [he])
  | cons d rest ih =>
    rw [mergeEdge] at he
    split at he
    · rename_i hd
      simp only [Bool.and_eq_true, beq_iff_eq] at hd
      rcases List.mem_cons.mp he with rfl | he
      · exact .inl hd
      · exact .inr (List.mem_cons_of_mem _ he)
    · rcases List.mem_cons.mp he with rfl | he
      · exact .inr List.mem_cons_self
      · exact (ih he).imp_right (List.mem_cons_of_mem _)

theorem edges_addFile (g : FileGraph) (n : FileNode) : (g.addFile n).edges = g.edges := by
  unfold addFile
  split <;> rfl

theorem size_le_addFile (g : FileGraph) (n : FileNode) : g.nodes.size ≤ (g.addFile n).nodes.size := by
  unfold addFile
  split
  · exact Nat.le_refl _
  · rw [Array.size_push]
    omega

theorem Built.inside {g : FileGraph} (h : g.Built) :
    ∀ e ∈ g.edges, e.source < g.nodes.size ∧ e.target < g.nodes.size := by
  induction h with
  | empty root => simp [FileGraph.empty]
  | @addFile g _ n ih =>
    intro e he
    rw [edges_addFile] at he
    have hEnds := ih e he
    have hSize := g.size_le_addFile n
    omega
  | @addEdge g h source target symbols ih =>
    rw [nodes_addEdge]
    unfold FileGraph.addEdge
    split
    · rename_i a b ha hb
      intro e he
      rcases mem_mergeEdge he with ⟨hs, ht⟩ | he
      · exact ⟨hs ▸ h.lt_size ha, ht ▸ h.lt_size hb⟩
      · exact ih e he
    · exact ih

theorem Built.imports_lt {g : FileGraph} (h : g.Built) {v w : Nat} (hvw : g.Imports v w) :
    v < g.nodes.size ∧ w < g.nodes.size := by
  obtain ⟨e, he, rfl, rfl⟩ := hvw
  exact h.inside e he

theorem Built.successors_lt {g : FileGraph} (h : g.Built) (v : Nat) :
    ∀ w ∈ g.successors v, w < g.nodes.size :=
  fun _ hw => (h.imports_lt (mem_successors.mp hw)).2

theorem Built.predecessors_lt {g : FileGraph} (h : g.Built) (v : Nat) :
    ∀ w ∈ g.predecessors v, w < g.nodes.size :=
  fun _ hw => (h.imports_lt (mem_predecessors.mp hw)).1

theorem Built.foldl {α : Type} {f : FileGraph → α → FileGraph} (hf : ∀ g a, g.Built → (f g a).Built)
    (xs : List α) {g : FileGraph} (h : g.Built) : (xs.foldl f g).Built := by
  induction xs generalizing g with
  | nil => exact h
  | cons x xs ih => exact ih (hf g x h)

def sketchPath (name : String) : Path := ⟨true, ["app", name]⟩

/-- A small graph drawn by the names of its files and the imports between them. -/
def sketch (names : List String) (imports : List (String × String)) : FileGraph :=
  imports.foldl (fun g e => g.addEdge (sketchPath e.1) (sketchPath e.2) [])
    (names.foldl (fun g name => g.addFile ⟨sketchPath name, .plain, [], []⟩) (empty ⟨true, ["app"]⟩))

theorem sketch_built (names : List String) (imports : List (String × String)) :
    (sketch names imports).Built :=
  .foldl (fun _ e h => h.addEdge (sketchPath e.1) (sketchPath e.2) []) imports
    (.foldl (fun _ name h => h.addFile ⟨sketchPath name, .plain, [], []⟩) names (.empty _))

end FileGraph

end ModuleAtlas
