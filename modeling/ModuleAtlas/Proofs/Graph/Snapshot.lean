import ModuleAtlas.Export.Drawing
import ModuleAtlas.Proofs.Graph.History
import ModuleAtlas.Proofs.Path.Display
import Mathlib.Data.List.Sort
import Mathlib.Data.String.Basic

/-!
# What a snapshot holds

A snapshot has an entry for the name of each node and for each edge, and every edge joins entries.
It has an entry for each node exactly if the nodes are told apart by their names. Then edges stand in
strict order, and two graphs with the same root, nodes and symbols have the same snapshot, however they
came about. Absolute paths of texts are told apart by their names; paths with other names may be shown
alike.
-/

namespace ModuleAtlas

set_option autoImplicit false

namespace Snapshot

variable {nodes : List (String × FileNode)}

theorem mem_insertNode {name : String} {n : FileNode} {entry : String × FileNode}
    (h : entry ∈ insertNode name n nodes) : entry = (name, n) ∨ entry ∈ nodes := by
  fun_induction insertNode name n nodes with
  | case1 => exact .inl (List.mem_singleton.mp h)
  | case2 => exact List.mem_cons.mp h
  | case3 => exact (List.mem_cons.mp h).imp_right (List.mem_cons_of_mem _)
  | case4 other m rest _ _ ih =>
    rcases List.mem_cons.mp h with rfl | h
    · exact .inr List.mem_cons_self
    · exact (ih h).imp_right (List.mem_cons_of_mem _)

theorem mem_names_insertNode {name other : String} {n : FileNode} :
    other ∈ (insertNode name n nodes).map Prod.fst ↔ other = name ∨ other ∈ nodes.map Prod.fst := by
  fun_induction insertNode name n nodes with
  | case1 => simp
  | case2 => simp
  | case3 first m rest _ hEq => simp [eq_of_beq hEq]
  | case4 first m rest _ _ ih =>
    rw [List.map_cons, List.mem_cons, ih, List.map_cons, List.mem_cons]
    exact or_left_comm

theorem perm_insertNode {name : String} (n : FileNode) (h : ∀ entry ∈ nodes, entry.1 ≠ name) :
    (insertNode name n nodes).Perm ((name, n) :: nodes) := by
  fun_induction insertNode name n nodes with
  | case1 => exact .refl _
  | case2 => exact .refl _
  | case3 other m rest _ hEq => exact absurd (eq_of_beq hEq).symm (h _ List.mem_cons_self)
  | case4 other m rest _ _ ih =>
    have hRest := ih fun entry hEntry => h entry (List.mem_cons_of_mem _ hEntry)
    exact (hRest.cons _).trans (.swap _ _ rest)

theorem ordered_insertNode (name : String) (n : FileNode) (h : nodes.Pairwise fun a b => a.1 < b.1) :
    (insertNode name n nodes).Pairwise fun a b => a.1 < b.1 := by
  fun_induction insertNode name n nodes with
  | case1 => exact List.pairwise_singleton _ _
  | case2 other m rest hLt =>
    obtain ⟨hFirst, -⟩ := List.pairwise_cons.mp h
    refine List.pairwise_cons.mpr ⟨List.forall_mem_cons.mpr ⟨hLt, fun entry hEntry => ?_⟩, h⟩
    exact lt_trans hLt (hFirst entry hEntry)
  | case3 other m rest _ hEq =>
    obtain ⟨hFirst, hRest⟩ := List.pairwise_cons.mp h
    refine List.pairwise_cons.mpr ⟨fun entry hEntry => ?_, hRest⟩
    rw [eq_of_beq hEq]
    exact hFirst entry hEntry
  | case4 other m rest hLt hNe ih =>
    obtain ⟨hFirst, hRest⟩ := List.pairwise_cons.mp h
    refine List.pairwise_cons.mpr ⟨fun entry hEntry => ?_, ih hRest⟩
    rcases mem_insertNode hEntry with rfl | hEntry
    · exact lt_of_le_of_ne (not_lt.mp hLt) fun hEq => hNe (beq_iff_eq.mpr hEq.symm)
    · exact hFirst entry hEntry

theorem ofNodes_concat (nodes : List (String × FileNode)) (entry : String × FileNode) :
    ofNodes (nodes ++ [entry]) = insertNode entry.1 entry.2 (ofNodes nodes) := by
  simp [ofNodes]

theorem ordered_ofNodes (nodes : List (String × FileNode)) :
    (ofNodes nodes).Pairwise fun a b => a.1 < b.1 := by
  induction nodes using List.reverseRecOn with
  | nil => exact .nil
  | append_singleton nodes entry ih =>
    rw [ofNodes_concat]
    exact ordered_insertNode _ _ ih

theorem mem_names_ofNodes {name : String} : name ∈ (ofNodes nodes).map Prod.fst ↔ name ∈ nodes.map Prod.fst := by
  induction nodes using List.reverseRecOn with
  | nil => rfl
  | append_singleton nodes entry ih =>
    rw [ofNodes_concat, mem_names_insertNode, ih, List.map_append, List.mem_append, List.map_singleton,
      List.mem_singleton, or_comm]

/-- Entries with different names are all kept. -/
theorem perm_ofNodes (h : nodes.Pairwise fun a b => a.1 ≠ b.1) : (ofNodes nodes).Perm nodes := by
  induction nodes using List.reverseRecOn with
  | nil => exact .refl _
  | append_singleton nodes entry ih =>
    obtain ⟨hNodes, -, hEntry⟩ := List.pairwise_append.mp h
    have hPerm := ih hNodes
    rw [ofNodes_concat]
    refine (perm_insertNode _ fun other hOther => ?_).trans ?_
    · exact hEntry other (hPerm.mem_iff.mp hOther) entry (List.mem_singleton_self entry)
    · exact (hPerm.cons entry).trans (List.perm_append_singleton entry nodes).symm

/-- There is an entry for each node only if the names differ. -/
theorem length_ofNodes_iff :
    (ofNodes nodes).length = nodes.length ↔ nodes.Pairwise fun a b => a.1 ≠ b.1 := by
  constructor
  · intro hLength
    have hNodup : ((ofNodes nodes).map Prod.fst).Nodup :=
      List.pairwise_map.mpr ((ordered_ofNodes nodes).imp fun hLt => ne_of_lt hLt)
    have hSubperm := List.subperm_of_subset hNodup fun name hName => mem_names_ofNodes.mp hName
    have hPerm := hSubperm.perm_of_length_le (by simp [hLength])
    exact List.pairwise_map.mp (hPerm.nodup_iff.mp hNodup)
  · exact fun h => (perm_ofNodes h).length_eq

end Snapshot

namespace EdgeRecord

def Before (a b : EdgeRecord) : Prop := a.source < b.source ∨ a.source = b.source ∧ a.target < b.target

instance : Std.Irrefl Before where
  irrefl a h := by
    rcases h with h | ⟨-, h⟩ <;> exact lt_irrefl _ h

instance : Std.Antisymm Before where
  antisymm a b hab hba := by
    rcases hab with hab | ⟨hEq, hab⟩ <;> rcases hba with hba | ⟨hEq', hba⟩
    · exact absurd hba (lt_asymm hab)
    · exact absurd hEq' (ne_of_gt hab)
    · exact absurd hEq (ne_of_gt hba)
    · exact absurd hba (lt_asymm hab)

theorem le_iff {a b : EdgeRecord} : le a b = true ↔
    a.source < b.source ∨ a.source = b.source ∧ a.target ≤ b.target := by
  simp [le]

theorem le_transitive {a b c : EdgeRecord} (hab : le a b = true) (hbc : le b c = true) : le a c = true := by
  rw [le_iff] at hab hbc ⊢
  rcases hab with hab | ⟨hEq, hab⟩
  · rcases hbc with hbc | ⟨hEq, -⟩
    · exact .inl (lt_trans hab hbc)
    · exact .inl (hEq ▸ hab)
  · rw [hEq]
    exact hbc.imp_right fun ⟨hEq, hbc⟩ => ⟨hEq, le_trans hab hbc⟩

theorem le_or_le (a b : EdgeRecord) : (le a b || le b a) = true := by
  rw [Bool.or_eq_true, le_iff, le_iff]
  rcases lt_trichotomy a.source b.source with h | h | h
  · exact .inl (.inl h)
  · rcases le_total a.target b.target with hTarget | hTarget
    · exact .inl (.inr ⟨h, hTarget⟩)
    · exact .inr (.inr ⟨h.symm, hTarget⟩)
  · exact .inr (.inl h)

theorem before_mergeSort {edges : List EdgeRecord}
    (h : edges.Pairwise fun a b => ¬ (a.source = b.source ∧ a.target = b.target)) :
    (edges.mergeSort le).Pairwise Before := by
  have hDistinct := h.perm (edges.mergeSort_perm le).symm fun hab hba => hab ⟨hba.1.symm, hba.2.symm⟩
  have hSorted := @List.pairwise_mergeSort EdgeRecord le (fun _ _ _ => le_transitive) le_or_le edges
  refine (hSorted.and hDistinct).imp fun {a b} hBoth => ?_
  obtain ⟨hLe, hNe⟩ := hBoth
  rcases le_iff.mp hLe with hLt | ⟨hEq, hLe⟩
  · exact .inl hLt
  · exact .inr ⟨hEq, lt_of_le_of_ne hLe fun hTarget => hNe ⟨hEq, hTarget⟩⟩

end EdgeRecord

namespace FileNode

/-- What a node says, however its path is written. -/
def content (n : FileNode) : List Part × ModuleKind × List String × List String :=
  (n.path.parts, n.kind, n.exports, n.imports)

theorem same_of_content {m n : FileNode} (h : m.content = n.content) : m.path.same n.path = true :=
  Path.same_iff.mpr (congrArg Prod.fst h)

end FileNode

namespace FileGraph

variable {g h : FileGraph}

section Nodes

theorem pathAt_mem {i : Nat} (hi : i < g.nodes.size) : ∃ n ∈ g.nodes, n.path = g.pathAt i :=
  ⟨g.nodes[i], Array.getElem_mem hi, by simp [pathAt, Array.getD, hi]⟩

theorem Built.nodes_distinct (hg : g.Built) :
    g.nodes.toList.Pairwise fun m n => m.path.same n.path = false := by
  rw [List.pairwise_iff_getElem]
  intro i j hi hj hLt
  rw [Array.length_toList] at hi hj
  rw [← Bool.not_eq_true]
  intro hSame
  have hEq : i = j := hg.distinct hi hj (by simpa [pathAt, Array.getD, hi, hj] using hSame)
  omega

end Nodes

section Records

def record (g : FileGraph) (e : ImportEdge) : EdgeRecord :=
  ⟨g.display (g.pathAt e.source), g.display (g.pathAt e.target), e.symbols⟩

theorem perm_edges (g : FileGraph) : g.snapshot.edges.Perm (g.edges.map g.record) :=
  List.mergeSort_perm _ _

theorem Built.mem_snapshot_edges (hg : g.Built) {r : EdgeRecord} : r ∈ g.snapshot.edges ↔
    ∃ m ∈ g.nodes, ∃ n ∈ g.nodes, g.symbols? m.path n.path = some r.symbols ∧
      r.source = g.display m.path ∧ r.target = g.display n.path := by
  rw [g.perm_edges.mem_iff, List.mem_map]
  constructor
  · rintro ⟨e, he, rfl⟩
    obtain ⟨hSource, hTarget⟩ := hg.inside e he
    obtain ⟨m, hm, hmPath⟩ := pathAt_mem hSource
    obtain ⟨n, hn, hnPath⟩ := pathAt_mem hTarget
    refine ⟨m, hm, n, hn, ?_, by rw [hmPath]; rfl, by rw [hnPath]; rfl⟩
    have hEdge : g.edge? m.path n.path = some e := by
      rw [hg.edge?_eq_some_iff, hmPath, hnPath]
      exact ⟨he, hg.indexOf?_pathAt hSource, hg.indexOf?_pathAt hTarget⟩
    rw [symbols?, hEdge]
    rfl
  · rintro ⟨m, -, n, -, hSymbols, hSource, hTarget⟩
    obtain ⟨e, hEdge, hSymbols⟩ := Option.map_eq_some_iff.mp hSymbols
    obtain ⟨he, hm, hn⟩ := hg.edge?_eq_some_iff.mp hEdge
    have hFrom : g.display (g.pathAt e.source) = g.display m.path :=
      Path.display_congr g.root.same_self (hg.same_pathAt hm)
    have hTo : g.display (g.pathAt e.target) = g.display n.path :=
      Path.display_congr g.root.same_self (hg.same_pathAt hn)
    refine ⟨e, he, ?_⟩
    rw [record, hFrom, hTo, hSymbols, ← hSource, ← hTarget]

end Records

theorem ends_named (hg : g.Built) {r : EdgeRecord} (hr : r ∈ g.snapshot.edges) :
    r.source ∈ g.snapshot.nodes.map Prod.fst ∧ r.target ∈ g.snapshot.nodes.map Prod.fst := by
  have hNamed : ∀ n ∈ g.nodes, g.display n.path ∈ g.snapshot.nodes.map Prod.fst := by
    intro n hn
    refine Snapshot.mem_names_ofNodes.mpr ?_
    rw [List.map_map]
    exact List.mem_map.mpr ⟨n, Array.mem_toList_iff.mpr hn, rfl⟩
  obtain ⟨m, hm, n, hn, -, hSource, hTarget⟩ := hg.mem_snapshot_edges.mp hr
  rw [hSource, hTarget]
  exact ⟨hNamed m hm, hNamed n hn⟩

section Distinct

/-- Nodes with one name have one path. -/
def ToldApart (g : FileGraph) : Prop :=
  ∀ m ∈ g.nodes, ∀ n ∈ g.nodes, g.display m.path = g.display n.path → m.path.same n.path = true

theorem toldApart_of_textual (hPaths : ∀ n ∈ g.nodes, n.path.Absolute) (hText : ∀ n ∈ g.nodes, n.path.Textual) :
    g.ToldApart := fun m hm n hn =>
  (Path.display_eq_iff_same g.root (hPaths m hm) (hPaths n hn) (hText m hm) (hText n hn)).mp

theorem Built.names_distinct_iff (hg : g.Built) :
    ((g.nodes.toList.map fun n => (g.display n.path, n)).Pairwise fun a b => a.1 ≠ b.1) ↔ g.ToldApart := by
  rw [List.pairwise_map]
  constructor
  · intro hDistinct m hm n hn hName
    have hSymm : Std.Symm fun m n : FileNode => g.display m.path = g.display n.path → m.path.same n.path = true :=
      ⟨fun m n hmn hName => by rw [Path.same_comm]; exact hmn hName.symm⟩
    have hAll : g.nodes.toList.Pairwise fun m n => g.display m.path = g.display n.path → m.path.same n.path = true :=
      hDistinct.imp fun hNe hName => absurd hName hNe
    exact hAll.forall_of_forall (fun n _ _ => n.path.same_self) (Array.mem_toList_iff.mpr hm)
      (Array.mem_toList_iff.mpr hn) hName
  · intro hApart
    refine hg.nodes_distinct.imp_of_mem fun {m n} hm hn hOther hName => ?_
    have hSame := hApart m (Array.mem_toList_iff.mp hm) n (Array.mem_toList_iff.mp hn) hName
    rw [hOther] at hSame
    cases hSame

theorem Built.length_nodes_iff (hg : g.Built) : g.snapshot.nodes.length = g.nodes.size ↔ g.ToldApart := by
  rw [← hg.names_distinct_iff, ← Snapshot.length_ofNodes_iff, List.length_map, Array.length_toList]
  rfl

variable (hg : g.Built) (hApart : g.ToldApart)

include hg hApart

theorem perm_nodes : g.snapshot.nodes.Perm (g.nodes.toList.map fun n => (g.display n.path, n)) :=
  Snapshot.perm_ofNodes (hg.names_distinct_iff.mpr hApart)

theorem mem_snapshot_nodes {name : String} {n : FileNode} :
    (name, n) ∈ g.snapshot.nodes ↔ n ∈ g.nodes ∧ name = g.display n.path := by
  rw [(perm_nodes hg hApart).mem_iff, List.mem_map]
  constructor
  · rintro ⟨m, hm, hEntry⟩
    obtain ⟨rfl, rfl⟩ := Prod.mk.inj hEntry
    exact ⟨Array.mem_toList_iff.mp hm, rfl⟩
  · rintro ⟨hn, rfl⟩
    exact ⟨n, Array.mem_toList_iff.mpr hn, rfl⟩

theorem ends_distinct :
    (g.edges.map g.record).Pairwise fun a b => ¬ (a.source = b.source ∧ a.target = b.target) := by
  have hNumber : ∀ i < g.nodes.size, ∀ j < g.nodes.size,
      g.display (g.pathAt i) = g.display (g.pathAt j) → i = j := by
    intro i hi j hj hName
    obtain ⟨m, hm, hmPath⟩ := pathAt_mem hi
    obtain ⟨n, hn, hnPath⟩ := pathAt_mem hj
    rw [← hmPath, ← hnPath] at hName
    refine hg.distinct hi hj ?_
    rw [← hmPath, ← hnPath]
    exact hApart m hm n hn hName
  refine List.pairwise_map.mpr (hg.single.imp_of_mem fun {d e} hd he hOther hEnds => hOther ?_)
  obtain ⟨hdSource, hdTarget⟩ := hg.inside d hd
  obtain ⟨heSource, heTarget⟩ := hg.inside e he
  exact ⟨hNumber _ hdSource _ heSource hEnds.1, hNumber _ hdTarget _ heTarget hEnds.2⟩

theorem edges_ordered : g.snapshot.edges.Pairwise EdgeRecord.Before :=
  EdgeRecord.before_mergeSort (ends_distinct hg hApart)

end Distinct

end FileGraph

namespace Mermaid

theorem edgeLine?_isSome {nodes : List (String × FileNode)} {r : EdgeRecord}
    (hSource : r.source ∈ nodes.map Prod.fst) (hTarget : r.target ∈ nodes.map Prod.fst) :
    (edgeLine? nodes r).isSome = true := by
  have hKnown : ∀ name ∈ nodes.map Prod.fst, ∃ i, nodes.findIdx? (·.1 == name) = some i := by
    intro name hName
    obtain ⟨entry, hEntry, rfl⟩ := List.mem_map.mp hName
    rw [← Option.isSome_iff_exists, List.findIdx?_isSome, List.any_eq_true]
    exact ⟨entry, hEntry, beq_self_eq_true _⟩
  obtain ⟨i, hi⟩ := hKnown _ hSource
  obtain ⟨j, hj⟩ := hKnown _ hTarget
  simp [edgeLine?, hi, hj]

end Mermaid

namespace Snapshot

/-- Equal but for the way in which the paths of nodes are written. -/
structure Same (s t : Snapshot) : Prop where
  nodes : s.nodes.map (fun entry => (entry.1, entry.2.content)) = t.nodes.map fun entry => (entry.1, entry.2.content)
  edges : s.edges = t.edges

theorem eq_of_fields {s t : Snapshot} (hNodes : s.nodes = t.nodes) (hEdges : s.edges = t.edges) : s = t := by
  cases s
  cases t
  rw [mk.injEq]
  exact ⟨hNodes, hEdges⟩

/-- Entries in strict order are told by what they say of their nodes. -/
theorem map_eq_of_mem {β : Type} (view : FileNode → β) {nodes others : List (String × FileNode)}
    (hNodes : nodes.Pairwise fun a b => a.1 < b.1) (hOthers : others.Pairwise fun a b => a.1 < b.1)
    (hForth : ∀ entry ∈ nodes, ∃ other ∈ others, entry.1 = other.1 ∧ view entry.2 = view other.2)
    (hBack : ∀ other ∈ others, ∃ entry ∈ nodes, entry.1 = other.1 ∧ view entry.2 = view other.2) :
    nodes.map (fun entry => (entry.1, view entry.2)) = others.map fun entry => (entry.1, view entry.2) := by
  have hIrrefl : Std.Irrefl fun a b : String × β => a.1 < b.1 := ⟨fun a => lt_irrefl a.1⟩
  have hAntisymm : Std.Antisymm fun a b : String × β => a.1 < b.1 :=
    ⟨fun a b hab hba => absurd hba (lt_asymm hab)⟩
  have hLeft : (nodes.map fun entry => (entry.1, view entry.2)).Pairwise fun a b => a.1 < b.1 :=
    List.pairwise_map.mpr hNodes
  have hRight : (others.map fun entry => (entry.1, view entry.2)).Pairwise fun a b => a.1 < b.1 :=
    List.pairwise_map.mpr hOthers
  refine hLeft.eq_of_mem_iff hRight fun pair => ?_
  rw [List.mem_map, List.mem_map]
  constructor
  · rintro ⟨entry, hEntry, rfl⟩
    obtain ⟨other, hOther, hName, hView⟩ := hForth entry hEntry
    exact ⟨other, hOther, by rw [hName, hView]⟩
  · rintro ⟨other, hOther, rfl⟩
    obtain ⟨entry, hEntry, hName, hView⟩ := hBack other hOther
    exact ⟨entry, hEntry, by rw [hName, hView]⟩

end Snapshot

namespace FileGraph

variable {g h : FileGraph}

section Agreement

/-- The graphs have the same root, the same nodes and the same symbols between them, in whatever
order they came. -/
structure Agrees (g h : FileGraph) : Prop where
  root : g.root.same h.root = true
  forth : ∀ m ∈ g.nodes, ∃ n ∈ h.nodes, m.content = n.content
  back : ∀ n ∈ h.nodes, ∃ m ∈ g.nodes, m.content = n.content
  symbols : ∀ m ∈ g.nodes, ∀ n ∈ g.nodes, g.symbols? m.path n.path = h.symbols? m.path n.path

theorem symbols?_congr (g : FileGraph) {a b c d : Path} (hac : a.same c = true) (hbd : b.same d = true) :
    g.symbols? a b = g.symbols? c d := by
  rw [symbols?, symbols?, edge?_eq, edge?_eq, g.indexOf?_congr hac, g.indexOf?_congr hbd]

theorem Agrees.symm (hAgrees : g.Agrees h) : h.Agrees g where
  root := Path.same_comm g.root h.root ▸ hAgrees.root
  forth n hn := by
    obtain ⟨m, hm, hContent⟩ := hAgrees.back n hn
    exact ⟨m, hm, hContent.symm⟩
  back m hm := by
    obtain ⟨n, hn, hContent⟩ := hAgrees.forth m hm
    exact ⟨n, hn, hContent.symm⟩
  symbols m hm n hn := by
    obtain ⟨k, hk, hkm⟩ := hAgrees.back m hm
    obtain ⟨l, hl, hln⟩ := hAgrees.back n hn
    have hkm := FileNode.same_of_content hkm
    have hln := FileNode.same_of_content hln
    rw [← h.symbols?_congr hkm hln, ← g.symbols?_congr hkm hln, hAgrees.symbols k hk l hl]

theorem Agrees.display_eq (hAgrees : g.Agrees h) {p q : Path} (hSame : p.same q = true) :
    g.display p = h.display q := Path.display_congr hAgrees.root hSame

theorem Agrees.toldApart (hAgrees : g.Agrees h) (hApart : g.ToldApart) : h.ToldApart := by
  intro m hm n hn hName
  obtain ⟨k, hk, hkm⟩ := hAgrees.back m hm
  obtain ⟨l, hl, hln⟩ := hAgrees.back n hn
  have hkm := FileNode.same_of_content hkm
  have hln := FileNode.same_of_content hln
  rw [← hAgrees.display_eq hkm, ← hAgrees.display_eq hln] at hName
  have hkl := hApart k hk l hl hName
  rw [Path.same_iff] at hkm hln hkl ⊢
  rw [← hkm, hkl, hln]

theorem Agrees.mem_edges (hAgrees : g.Agrees h) (hg : g.Built) (hh : h.Built) {r : EdgeRecord}
    (hr : r ∈ g.snapshot.edges) : r ∈ h.snapshot.edges := by
  obtain ⟨m, hm, n, hn, hSymbols, hSource, hTarget⟩ := hg.mem_snapshot_edges.mp hr
  obtain ⟨k, hk, hmk⟩ := hAgrees.forth m hm
  obtain ⟨l, hl, hnl⟩ := hAgrees.forth n hn
  have hmk := FileNode.same_of_content hmk
  have hnl := FileNode.same_of_content hnl
  refine hh.mem_snapshot_edges.mpr ⟨k, hk, l, hl, ?_, ?_, ?_⟩
  · rw [← h.symbols?_congr hmk hnl, ← hAgrees.symbols m hm n hn, hSymbols]
  · rw [hSource, hAgrees.display_eq hmk]
  · rw [hTarget, hAgrees.display_eq hnl]

variable (hAgrees : g.Agrees h) (hg : g.Built) (hh : h.Built) (hApart : g.ToldApart)

include hAgrees hg hh hApart

theorem Agrees.edges_eq : g.snapshot.edges = h.snapshot.edges :=
  (edges_ordered hg hApart).eq_of_mem_iff (edges_ordered hh (hAgrees.toldApart hApart)) fun _ =>
    ⟨hAgrees.mem_edges hg hh, hAgrees.symm.mem_edges hh hg⟩

theorem Agrees.map_nodes_eq {β : Type} (view : FileNode → β)
    (hView : ∀ m n, view m = view n → m.path.same n.path = true)
    (hForth : ∀ m ∈ g.nodes, ∃ n ∈ h.nodes, view m = view n)
    (hBack : ∀ n ∈ h.nodes, ∃ m ∈ g.nodes, view m = view n) :
    g.snapshot.nodes.map (fun entry => (entry.1, view entry.2)) =
      h.snapshot.nodes.map fun entry => (entry.1, view entry.2) := by
  have hOthers := hAgrees.toldApart hApart
  refine Snapshot.map_eq_of_mem view (Snapshot.ordered_ofNodes _) (Snapshot.ordered_ofNodes _) ?_ ?_
  · rintro ⟨name, m⟩ hEntry
    obtain ⟨hm, rfl⟩ := (mem_snapshot_nodes hg hApart).mp hEntry
    obtain ⟨n, hn, hEq⟩ := hForth m hm
    exact ⟨(_, n), (mem_snapshot_nodes hh hOthers).mpr ⟨hn, rfl⟩, hAgrees.display_eq (hView m n hEq), hEq⟩
  · rintro ⟨name, n⟩ hEntry
    obtain ⟨hn, rfl⟩ := (mem_snapshot_nodes hh hOthers).mp hEntry
    obtain ⟨m, hm, hEq⟩ := hBack n hn
    exact ⟨(_, m), (mem_snapshot_nodes hg hApart).mpr ⟨hm, rfl⟩, hAgrees.display_eq (hView m n hEq), hEq⟩

theorem Agrees.snapshot_same : g.snapshot.Same h.snapshot where
  nodes := hAgrees.map_nodes_eq hg hh hApart FileNode.content (fun _ _ => FileNode.same_of_content)
    hAgrees.forth hAgrees.back
  edges := hAgrees.edges_eq hg hh hApart

theorem Agrees.snapshot_eq (hNodes : ∀ n, n ∈ g.nodes ↔ n ∈ h.nodes) : g.snapshot = h.snapshot := by
  have hEntries := hAgrees.map_nodes_eq hg hh hApart id
    (fun _ _ hEq => Path.same_iff.mpr (congrArg (fun n : FileNode => n.path.parts) hEq))
    (fun m hm => ⟨m, (hNodes m).mp hm, rfl⟩) (fun n hn => ⟨n, (hNodes n).mpr hn, rfl⟩)
  simp only [id, Prod.mk.eta, List.map_id'] at hEntries
  exact Snapshot.eq_of_fields hEntries (hAgrees.edges_eq hg hh hApart)

end Agreement

/-- What a snapshot tells of its graph. -/
structure ToldBySnapshot (g : FileGraph) : Prop where
  named_iff : ∀ root, ∀ m ∈ g.nodes, ∀ n ∈ g.nodes, Path.display root m.path = Path.display root n.path ↔
    (Path.shown root m.path).map Part.text = (Path.shown root n.path).map Part.text
  named_apart : ∀ root, ∀ m ∈ g.nodes, ∀ n ∈ g.nodes, m.path.Textual → n.path.Textual →
    (Path.display root m.path = Path.display root n.path ↔ m.path.same n.path = true)
  nodes_ordered : g.snapshot.nodes.Pairwise fun a b => a.1 < b.1
  toldApart : (∀ n ∈ g.nodes, n.path.Textual) → g.ToldApart
  nodes_length_iff : g.snapshot.nodes.length = g.nodes.size ↔ g.ToldApart
  mem_nodes : g.ToldApart → ∀ name n, (name, n) ∈ g.snapshot.nodes ↔ n ∈ g.nodes ∧ name = g.display n.path
  edges_ordered : g.ToldApart → g.snapshot.edges.Pairwise EdgeRecord.Before
  edges_length : g.snapshot.edges.length = g.edges.length
  mem_edges : ∀ r, r ∈ g.snapshot.edges ↔
    ∃ m ∈ g.nodes, ∃ n ∈ g.nodes, g.symbols? m.path n.path = some r.symbols ∧
      r.source = g.display m.path ∧ r.target = g.display n.path
  ends_named : ∀ r ∈ g.snapshot.edges,
    r.source ∈ g.snapshot.nodes.map Prod.fst ∧ r.target ∈ g.snapshot.nodes.map Prod.fst
  drawn : ∀ r ∈ g.snapshot.edges, (Mermaid.edgeLine? g.snapshot.nodes r).isSome = true
  same_of_agrees : g.ToldApart → ∀ h : FileGraph, h.Built → g.Agrees h → g.snapshot.Same h.snapshot
  eq_of_agrees : g.ToldApart → ∀ h : FileGraph, h.Built → g.Agrees h → (∀ n, n ∈ g.nodes ↔ n ∈ h.nodes) →
    g.snapshot = h.snapshot

def draftNode (text : String) : FileNode := ⟨.ofString text, .plain, [text], []⟩

def draft : FileGraph :=
  let a := draftNode "/app/a.ts"
  let b := draftNode "/lib/b.ts"
  (empty (.ofString "/app")).grow
    [.file a, .file b, .edge a.path b.path ["x"], .edge b.path a.path [], .edge a.path b.path ["y", "x"]]

/-- The same graph by other calls in another order, with other spellings and a call that comes too early. -/
def redraft : FileGraph :=
  let a := { draftNode "/app/a.ts" with path := .ofString "/app//./a.ts" }
  let b := draftNode "/lib/b.ts"
  (empty (.ofString "/app/")).grow
    [.file b, .edge b.path a.path ["z"], .file a, .edge a.path b.path ["x", "y"], .edge b.path a.path []]

/-- A file whose name, a single byte, is no text. -/
def obscureNode (byte : UInt8) : FileNode := ⟨⟨true, ["app", ⟨[byte]⟩]⟩, .plain, [toString byte.toNat], []⟩

end FileGraph

end ModuleAtlas
