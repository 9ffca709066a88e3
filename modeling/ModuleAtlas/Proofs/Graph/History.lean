import ModuleAtlas.Proofs.Graph.Built
import ModuleAtlas.Proofs.Collection
import Mathlib.Data.List.Pairwise

/-!
# The history of a graph

What a graph holds is told by the changes that made it. A path has a number if a file of it was
added, its node is the first one added, and an edge has the symbols of all calls that joined its
two files while both were there. Numbers and nodes stay as they are whatever is added later.
-/

namespace ModuleAtlas

open Text

set_option autoImplicit false

namespace Change

def fileAt? (p : Path) : Change → Option FileNode
  | .file n => if n.path.same p then some n else none
  | .edge _ _ _ => none

def between? (a b : Path) : Change → Option (List String)
  | .file _ => none
  | .edge source target symbols =>
    if source.same a && target.same b then some symbols else none

def firstFile? (p : Path) (changes : List Change) : Option FileNode := changes.findSome? (fileAt? p)

def adds (p : Path) (changes : List Change) : Bool := (firstFile? p changes).isSome

/-- The symbols of each call for an edge that came when both of its files were added. -/
def joinings (a b : Path) (changes : List Change) : List (List String) :=
  changes.zipIdx.filterMap fun c =>
    let earlier := changes.take c.2
    if adds a earlier && adds b earlier then between? a b c.1 else none

theorem firstFile?_concat (p : Path) (changes : List Change) (c : Change) :
    firstFile? p (changes ++ [c]) = (firstFile? p changes).or (fileAt? p c) := by
  rw [firstFile?, List.findSome?_append, List.findSome?_singleton]
  rfl

theorem joinings_concat (a b : Path) (changes : List Change) (c : Change) :
    joinings a b (changes ++ [c]) = joinings a b changes ++
      (if adds a changes && adds b changes then between? a b c else none).toList := by
  have hEarlier : ∀ d ∈ changes.zipIdx, (changes ++ [c]).take d.2 = changes.take d.2 := by
    intro d hd
    have hLt := (List.mem_zipIdx hd).2.1
    exact List.take_append_of_le_length (by omega)
  rw [joinings, List.zipIdx_append, List.filterMap_append]
  congr 1
  · apply List.filterMap_congr
    intro d hd
    rw [hEarlier d hd]
  · rw [List.zipIdx_singleton, Nat.zero_add, List.filterMap_cons, List.filterMap_nil]
    simp only [List.take_left]
    split <;> rename_i hLast <;> rw [hLast] <;> rfl

theorem adds_iff {p : Path} {changes : List Change} :
    adds p changes = true ↔ ∃ n, .file n ∈ changes ∧ n.path.same p = true := by
  rw [adds, firstFile?, List.findSome?_isSome_iff]
  constructor
  · rintro ⟨c, hc, hAt⟩
    cases c with
    | file n => exact ⟨n, hc, by simpa [fileAt?] using hAt⟩
    | edge source target symbols => cases hAt
  · rintro ⟨n, hn, hSame⟩
    exact ⟨.file n, hn, by simp [fileAt?, hSame]⟩

end Change

namespace FileGraph

open Change

variable {g : FileGraph}

section Nodes

theorem getElem?_addFile {i : Nat} (n : FileNode) (hi : i < g.nodes.size) :
    (g.addFile n).nodes[i]? = g.nodes[i]? := by
  unfold addFile
  split
  · rfl
  · rw [Array.getElem?_push_lt hi, Array.getElem?_eq_getElem hi]

theorem getElem?_addFile_size {n : FileNode} (h : g.indexOf? n.path = none) :
    (g.addFile n).nodes[g.nodes.size]? = some n := by
  rw [addFile, if_neg (by simp [contains, h]), Array.getElem?_push_size]

theorem Built.nodes_of_indexOf? (h : g.Built) {p : Path} {i : Nat} (hi : g.indexOf? p = some i) :
    ∃ n, g.nodes[i]? = some n ∧ g.node? p = some n := by
  refine ⟨_, Array.getElem?_eq_getElem (h.lt_size hi), ?_⟩
  rw [node?, hi, Option.bind_some, Array.getElem?_eq_getElem]

theorem Built.contains_eq (h : g.Built) (p : Path) : g.contains p = (g.node? p).isSome := by
  cases hIndex : g.indexOf? p with
  | none => rw [contains, node?, hIndex]; rfl
  | some i =>
    obtain ⟨n, -, hn⟩ := h.nodes_of_indexOf? hIndex
    rw [contains, hIndex, hn]
    rfl

theorem Built.node?_apply (h : g.Built) (c : Change) (p : Path) :
    (g.apply c).1.node? p = (g.node? p).or (fileAt? p c) := by
  cases c with
  | edge source target symbols =>
    simp only [apply, fileAt?, node?, indexOf?_addEdge, nodes_addEdge, Option.or_none]
  | file n =>
    simp only [apply, fileAt?]
    cases hIndex : g.indexOf? p with
    | some i =>
      have hi := h.lt_size hIndex
      rw [node?, node?, indexOf?_addFile, hIndex, Option.some_or, Option.bind_some, Option.bind_some,
        getElem?_addFile n hi, Array.getElem?_eq_getElem hi, Option.some_or]
    | none =>
      rw [node?, node?, indexOf?_addFile, hIndex, Option.none_or, Option.bind_none, Option.none_or]
      split
      · rename_i hSame
        rw [← g.indexOf?_congr hSame] at hIndex
        exact getElem?_addFile_size hIndex
      · rfl

end Nodes

section Edges

def symbols? (g : FileGraph) (a b : Path) : Option (List String) :=
  (g.edge? a b).map ImportEdge.symbols

theorem find?_mergeEdge (i j : Nat) (symbols : List String) (edges : List ImportEdge) (k l : Nat) :
    (mergeEdge i j symbols edges).find? (fun e => e.source == k && e.target == l) =
      if i = k ∧ j = l then
        some ⟨i, j, firstSeen (((edges.find? fun e => e.source == i && e.target == j).map
          ImportEdge.symbols).getD [] ++ symbols)⟩
      else edges.find? fun e => e.source == k && e.target == l := by
  induction edges with
  | nil =>
    rw [mergeEdge, List.find?_singleton]
    grind
  | cons d rest ih =>
    rw [mergeEdge]
    split
    · grind
    · grind

theorem indexOf?_with_edges (g : FileGraph) (edges : List ImportEdge) (p : Path) :
    ({ g with edges := edges } : FileGraph).indexOf? p = g.indexOf? p := rfl

theorem edge?_eq (g : FileGraph) (a b : Path) : g.edge? a b = (g.indexOf? a).bind fun i =>
    (g.indexOf? b).bind fun j => g.edges.find? fun e => e.source == i && e.target == j := by
  unfold edge?
  cases g.indexOf? a <;> cases g.indexOf? b <;> rfl

theorem joins_eq_true_iff {source target : Path} : g.joins source target = true ↔
    ∃ i j, g.indexOf? source = some i ∧ g.indexOf? target = some j := by
  simp [joins, contains, Option.isSome_iff_exists]

theorem addEdge_of_joins {source target : Path} {i j : Nat} (hi : g.indexOf? source = some i)
    (hj : g.indexOf? target = some j) (symbols : List String) :
    g.addEdge source target symbols = { g with edges := mergeEdge i j symbols g.edges } := by
  simp only [addEdge, hi, hj]

theorem addEdge_of_not_joins {source target : Path} (h : g.joins source target = false)
    (symbols : List String) : g.addEdge source target symbols = g := by
  unfold addEdge
  split
  · rename_i i j hi hj
    exact absurd (joins_eq_true_iff.mpr ⟨i, j, hi, hj⟩) (by simp [h])
  · rfl

theorem Built.symbols?_addEdge (h : g.Built) (source target : Path) (symbols : List String) (a b : Path) :
    (g.addEdge source target symbols).symbols? a b =
      if (source.same a && target.same b) && g.joins a b then
        some (firstSeen ((g.symbols? a b).getD [] ++ symbols))
      else g.symbols? a b := by
  cases hJoins : g.joins source target with
  | false =>
    rw [addEdge_of_not_joins hJoins, if_neg]
    intro hAll
    simp only [Bool.and_eq_true] at hAll
    obtain ⟨⟨ha, hb⟩, hab⟩ := hAll
    rw [joins, contains, contains, ← g.indexOf?_congr ha, ← g.indexOf?_congr hb] at hab
    rw [joins, contains, contains, hab] at hJoins
    cases hJoins
  | true =>
    obtain ⟨i, j, hi, hj⟩ := joins_eq_true_iff.mp hJoins
    rw [addEdge_of_joins hi hj]
    cases ha : g.indexOf? a with
    | none => simp [symbols?, edge?_eq, indexOf?_with_edges, joins, contains, ha]
    | some k =>
      cases hb : g.indexOf? b with
      | none => simp [symbols?, edge?_eq, indexOf?_with_edges, joins, contains, ha, hb]
      | some l =>
        have hEnds : ((source.same a && target.same b) && g.joins a b) = true ↔ i = k ∧ j = l := by
          rw [h.number_eq_iff hi ha, h.number_eq_iff hj hb]
          simp [joins, contains, ha, hb]
        simp only [symbols?, edge?_eq, indexOf?_with_edges, ha, hb, Option.bind_some, find?_mergeEdge, hEnds]
        split
        · rename_i hEq
          rw [hEq.1, hEq.2]
          rfl
        · rfl

/-- No two edges join the same nodes in the same order. -/
def Single (edges : List ImportEdge) : Prop :=
  edges.Pairwise fun d e => ¬ (d.source = e.source ∧ d.target = e.target)

theorem Single.eq_of_ends {edges : List ImportEdge} (h : Single edges) {d e : ImportEdge}
    (hd : d ∈ edges) (he : e ∈ edges) (hEnds : d.source = e.source ∧ d.target = e.target) : d = e := by
  have hUnique : edges.Pairwise fun d e => d.source = e.source ∧ d.target = e.target → d = e :=
    h.imp fun hOther hEnds => absurd hEnds hOther
  have hSymm : Std.Symm fun d e : ImportEdge => d.source = e.source ∧ d.target = e.target → d = e :=
    ⟨fun d e hde hEnds => (hde ⟨hEnds.1.symm, hEnds.2.symm⟩).symm⟩
  exact hUnique.forall_of_forall (fun _ _ _ => rfl) hd he hEnds

theorem single_mergeEdge (i j : Nat) (symbols : List String) {edges : List ImportEdge}
    (h : Single edges) : Single (mergeEdge i j symbols edges) := by
  induction edges with
  | nil => exact List.pairwise_singleton _ _
  | cons d rest ih =>
    obtain ⟨hFirst, hRest⟩ := List.pairwise_cons.mp h
    rw [mergeEdge]
    split
    · exact List.pairwise_cons.mpr ⟨hFirst, hRest⟩
    · rename_i hOther
      simp only [Bool.and_eq_true, beq_iff_eq] at hOther
      refine List.pairwise_cons.mpr ⟨fun e he => ?_, ih hRest⟩
      rcases mem_mergeEdge he with ⟨hSource, hTarget⟩ | he
      · rwa [hSource, hTarget]
      · exact hFirst e he

theorem Built.single (h : g.Built) : Single g.edges := by
  induction h with
  | empty root => exact .nil
  | addFile _ n ih => rwa [edges_addFile]
  | addEdge _ source target symbols ih =>
    unfold FileGraph.addEdge
    split
    · exact single_mergeEdge _ _ symbols ih
    · exact ih

theorem Built.edge?_eq_some_iff (h : g.Built) {a b : Path} {e : ImportEdge} : g.edge? a b = some e ↔
    e ∈ g.edges ∧ g.indexOf? a = some e.source ∧ g.indexOf? b = some e.target := by
  simp only [edge?_eq, Option.bind_eq_some_iff]
  constructor
  · rintro ⟨i, ha, j, hb, hFind⟩
    have hEnds := List.find?_some hFind
    simp only [Bool.and_eq_true, beq_iff_eq] at hEnds
    exact ⟨List.mem_of_find?_eq_some hFind, hEnds.1 ▸ ha, hEnds.2 ▸ hb⟩
  · rintro ⟨he, ha, hb⟩
    refine ⟨_, ha, _, hb, ?_⟩
    obtain ⟨d, hd⟩ : ∃ d, g.edges.find? (fun d => d.source == e.source && d.target == e.target) = some d := by
      rw [← Option.isSome_iff_exists, List.find?_isSome]
      exact ⟨e, he, by simp⟩
    have hEnds := List.find?_some hd
    simp only [Bool.and_eq_true, beq_iff_eq] at hEnds
    rw [hd, h.single.eq_of_ends (List.mem_of_find?_eq_some hd) he hEnds]

theorem Built.edge?_addFile (h : g.Built) (n : FileNode) (a b : Path) :
    (g.addFile n).edge? a b = g.edge? a b := by
  -- a number that an edge has was given out before
  have hOld : ∀ p, ∀ i < g.nodes.size, (g.addFile n).indexOf? p = some i ↔ g.indexOf? p = some i := by
    intro p i hi
    rw [indexOf?_addFile, Option.or_eq_some_iff]
    refine or_iff_left ?_
    rintro ⟨-, hNew⟩
    split at hNew
    · exact absurd (Option.some.inj hNew) (by omega)
    · cases hNew
  apply Option.ext
  intro e
  rw [(h.addFile n).edge?_eq_some_iff, h.edge?_eq_some_iff, edges_addFile]
  apply and_congr_right
  intro he
  obtain ⟨hSource, hTarget⟩ := h.inside e he
  rw [hOld a _ hSource, hOld b _ hTarget]

end Edges

section Run

theorem grow_concat (g : FileGraph) (changes : List Change) (c : Change) :
    g.grow (changes ++ [c]) = ((g.grow changes).apply c).1 := by
  simp [grow]

theorem Built.apply (h : g.Built) (c : Change) : (g.apply c).1.Built := by
  cases c with
  | file n => exact h.addFile n
  | edge source target symbols => exact h.addEdge source target symbols

theorem Built.grow (h : g.Built) (changes : List Change) : (g.grow changes).Built :=
  .foldl (fun _ c hg => hg.apply c) changes h

theorem built_grow (root : Path) (changes : List Change) : ((empty root).grow changes).Built :=
  (Built.empty root).grow changes

theorem node?_grow (root : Path) (changes : List Change) (p : Path) :
    ((empty root).grow changes).node? p = firstFile? p changes := by
  induction changes using List.reverseRecOn with
  | nil => rfl
  | append_singleton changes c ih =>
    rw [grow_concat, (built_grow root changes).node?_apply, ih, firstFile?_concat]

theorem joins_grow (root : Path) (changes : List Change) (a b : Path) :
    ((empty root).grow changes).joins a b = (adds a changes && adds b changes) := by
  have hBuilt := built_grow root changes
  rw [joins, hBuilt.contains_eq, hBuilt.contains_eq, node?_grow, node?_grow, adds, adds]

/-- The symbols of an edge that calls make; no call, no edge. -/
def merged (calls : List (List String)) : Option (List String) :=
  if calls.isEmpty then none else some (firstSeen calls.flatten)

theorem merged_concat (calls : List (List String)) (symbols : List String) :
    merged (calls ++ [symbols]) = some (firstSeen ((merged calls).getD [] ++ symbols)) := by
  cases calls with
  | nil => simp [merged]
  | cons call calls => simp [merged, firstSeen_append]

theorem merged_eq_none_iff {calls : List (List String)} : merged calls = none ↔ calls = [] := by
  simp [merged]

theorem firstSeen_of_merged {calls : List (List String)} {symbols : List String}
    (h : merged calls = some symbols) : FirstSeen calls.flatten symbols := by
  unfold merged at h
  split at h
  · cases h
  · cases h
    exact firstSeen_spec _

theorem symbols?_grow (root : Path) (changes : List Change) (a b : Path) :
    ((empty root).grow changes).symbols? a b = merged (joinings a b changes) := by
  induction changes using List.reverseRecOn with
  | nil => rfl
  | append_singleton changes c ih =>
    have hBuilt := built_grow root changes
    rw [grow_concat, joinings_concat]
    cases c with
    | file n =>
      rw [symbols?, ← hBuilt.edge?_addFile n a b] at ih
      simpa [FileGraph.apply, between?, symbols?] using ih
    | edge source target symbols =>
      simp only [FileGraph.apply, hBuilt.symbols?_addEdge, joins_grow, between?, ih]
      cases source.same a && target.same b <;> cases adds a changes && adds b changes <;>
        simp [merged_concat]

/-- All that had a number has it still, and the node with it. -/
def Extends (g later : FileGraph) : Prop :=
  ∀ p i, g.indexOf? p = some i → later.indexOf? p = some i ∧ later.nodes[i]? = g.nodes[i]?

theorem Extends.trans {later last : FileGraph} (h : Extends g later) (hLast : Extends later last) :
    Extends g last := by
  intro p i hi
  obtain ⟨hLater, hNode⟩ := h p i hi
  exact ⟨(hLast p i hLater).1, (hLast p i hLater).2.trans hNode⟩

theorem Built.extends_apply (h : g.Built) (c : Change) : Extends g (g.apply c).1 := by
  intro p i hi
  cases c with
  | edge source target symbols =>
    simp only [FileGraph.apply, indexOf?_addEdge, nodes_addEdge, hi, and_self]
  | file n =>
    simp only [FileGraph.apply, indexOf?_addFile, hi, Option.some_or, true_and]
    exact getElem?_addFile n (h.lt_size hi)

theorem Built.extends_grow (h : g.Built) (changes : List Change) : Extends g (g.grow changes) := by
  induction changes using List.reverseRecOn with
  | nil => exact fun p i hi => ⟨hi, rfl⟩
  | append_singleton changes c ih =>
    rw [grow_concat]
    exact ih.trans ((h.grow changes).extends_apply c)

end Run

/-- What changes of an empty graph have made of it. -/
structure RecordsChanges (changes : List Change) (g : FileGraph) : Prop where
  numbered : g.Numbered
  known_iff : ∀ p, (∃ i, g.indexOf? p = some i) ↔ ∃ n, .file n ∈ changes ∧ n.path.same p = true
  number_iff : ∀ i, i < g.nodes.size ↔ ∃ p, g.indexOf? p = some i
  number_eq_iff : ∀ p q i j, g.indexOf? p = some i → g.indexOf? q = some j → (i = j ↔ p.same q = true)
  node : ∀ p i, g.indexOf? p = some i → (g.pathAt i).same p = true ∧
    ∃ n, firstFile? p changes = some n ∧ g.nodes[i]? = some n ∧ g.node? p = some n
  lasting : ∀ later, Extends g (g.grow later)
  inside : ∀ e ∈ g.edges, e.source < g.nodes.size ∧ e.target < g.nodes.size
  single : Single g.edges
  edge_iff : ∀ a b e, g.edge? a b = some e ↔
    e ∈ g.edges ∧ g.indexOf? a = some e.source ∧ g.indexOf? b = some e.target
  joined_iff : ∀ a b, (∃ e, g.edge? a b = some e) ↔ joinings a b changes ≠ []
  symbols : ∀ a b e, g.edge? a b = some e → FirstSeen (joinings a b changes).flatten e.symbols
  answered : ∀ n, ∃ i, (g.apply (.file n)).2 = .number i ∧ (g.apply (.file n)).1.indexOf? n.path = some i
  refused_iff : ∀ a b symbols, (g.apply (.edge a b symbols)).2 = .joined false ↔
    ¬ ((∃ i, g.indexOf? a = some i) ∧ ∃ j, g.indexOf? b = some j)
  refused : ∀ a b symbols, (g.apply (.edge a b symbols)).2 = .joined false →
    (g.apply (.edge a b symbols)).1 = g

theorem Built.exists_indexOf?_iff (h : g.Built) {p : Path} :
    (∃ i, g.indexOf? p = some i) ↔ (g.node? p).isSome = true := by
  rw [← h.contains_eq, contains, Option.isSome_iff_exists]

theorem Built.lt_size_iff (h : g.Built) {i : Nat} : i < g.nodes.size ↔ ∃ p, g.indexOf? p = some i :=
  ⟨fun hi => ⟨_, h.indexOf?_pathAt hi⟩, fun ⟨_, hp⟩ => h.lt_size hp⟩

theorem indexOf?_apply_file (g : FileGraph) (n : FileNode) :
    (g.apply (.file n)).1.indexOf? n.path = some ((g.indexOf? n.path).getD g.nodes.size) := by
  rw [apply, indexOf?_addFile, if_pos n.path.same_self]
  cases g.indexOf? n.path <;> rfl

theorem answer_edge_iff {a b : Path} {symbols : List String} :
    (g.apply (.edge a b symbols)).2 = .joined false ↔ g.joins a b = false := by
  simp [apply]

/-- The graph that changes make holds what they added, in the order and numbering of the calls. -/
theorem grow_records_changes (root : Path) (changes : List Change) :
    RecordsChanges changes ((empty root).grow changes) := by
  have hBuilt := built_grow root changes
  have hSymbols := symbols?_grow root changes
  have hNode := node?_grow root changes
  generalize (empty root).grow changes = g at *
  constructor
  case numbered => exact hBuilt.numbered
  case known_iff => intro p; rw [hBuilt.exists_indexOf?_iff, hNode, ← adds, adds_iff]
  case number_iff => exact fun i => hBuilt.lt_size_iff
  case number_eq_iff => exact fun p q i j hi hj => hBuilt.number_eq_iff hi hj
  case node =>
    intro p i hi
    obtain ⟨n, hAt, hn⟩ := hBuilt.nodes_of_indexOf? hi
    exact ⟨hBuilt.same_pathAt hi, n, hNode p ▸ hn, hAt, hn⟩
  case lasting => exact hBuilt.extends_grow
  case inside => exact hBuilt.inside
  case single => exact hBuilt.single
  case edge_iff => exact fun a b e => hBuilt.edge?_eq_some_iff
  case joined_iff =>
    intro a b
    rw [← not_iff_not, not_not, ← merged_eq_none_iff, ← hSymbols, symbols?, Option.map_eq_none_iff,
      Option.eq_none_iff_forall_ne_some, not_exists]
  case symbols =>
    intro a b e he
    have hMerged : some e.symbols = merged (joinings a b changes) := by
      rw [← hSymbols, symbols?, he, Option.map_some]
    exact firstSeen_of_merged hMerged.symm
  case answered => exact fun n => ⟨_, rfl, g.indexOf?_apply_file n⟩
  case refused_iff =>
    intro a b symbols
    rw [answer_edge_iff, ← Bool.not_eq_true, joins_eq_true_iff, exists_and_exists_comm]
  case refused => exact fun a b symbols h => addEdge_of_not_joins (answer_edge_iff.mp h) symbols

/-- A call that comes before its files leaves no trace. -/
example : joinings ⟨true, ["a"]⟩ ⟨true, ["b"]⟩
    [.file ⟨⟨true, ["a"]⟩, .plain, [], []⟩, .edge ⟨true, ["a"]⟩ ⟨true, ["b"]⟩ ["x"],
      .file ⟨⟨true, ["b"]⟩, .plain, [], []⟩, .edge ⟨true, ["a"]⟩ ⟨true, ["b"]⟩ ["y"]] = [["y"]] := by
  decide

end FileGraph

end ModuleAtlas
