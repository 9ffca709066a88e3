import ModuleAtlas.Proofs.Graph.History
import ModuleAtlas.Proofs.Program.Files

/-!
# The import graph of a program

The graph of a program is made by adding its files in path order and then, for each file, one
edge to every file that its imports and re-exports stand for. So its edges are the pairs of
files of which the first asks the second for something.
-/

namespace ModuleAtlas

open Text

set_option autoImplicit false

namespace Program

/-- An import or a re-export of a file stands for another file. -/
def Requires (p : Program) (f g : SourceFile) : Prop :=
  (∃ i ∈ f.imports, p.resolve f.path i.source = some g.path) ∨
    ∃ x ∈ f.exports, ∃ source, x.source = some source ∧ p.resolve f.path source = some g.path

/-- What a file asks of another one, by its imports and then by its re-exports. -/
def drawn (p : Program) (f g : SourceFile) : List String :=
  (f.imports.filter fun i => p.resolve f.path i.source = some g.path).flatMap Import.symbols ++
    (f.exports.filter fun x => x.source.bind (p.resolve f.path) = some g.path).map Export.name

end Program

namespace Change

theorem adds_append_edges {p : Path} {changes edges : List Change}
    (hEdges : ∀ c ∈ edges, ∃ a b symbols, c = .edge a b symbols) :
    adds p (changes ++ edges) = adds p changes := by
  rw [Bool.eq_iff_iff, adds_iff, adds_iff]
  constructor
  · rintro ⟨n, hn, hSame⟩
    rcases List.mem_append.mp hn with hn | hn
    · exact ⟨n, hn, hSame⟩
    · obtain ⟨a, b, symbols, hEdge⟩ := hEdges _ hn
      cases hEdge
  · rintro ⟨n, hn, hSame⟩
    exact ⟨n, List.mem_append_left _ hn, hSame⟩

theorem joinings_append_edges {a b : Path} {changes edges : List Change} (ha : adds a changes = true)
    (hb : adds b changes = true) (hEdges : ∀ c ∈ edges, ∃ a b symbols, c = .edge a b symbols) :
    joinings a b (changes ++ edges) = joinings a b changes ++ edges.filterMap (between? a b) := by
  induction edges using List.reverseRecOn with
  | nil => simp
  | append_singleton edges c ih =>
    obtain ⟨hEdges, -⟩ := List.forall_mem_append.mp hEdges
    rw [← List.append_assoc, joinings_concat, ih hEdges, adds_append_edges hEdges,
      adds_append_edges hEdges, ha, hb, List.filterMap_append, List.append_assoc]
    cases hBetween : between? a b c <;> simp [hBetween]

theorem joinings_files (a b : Path) (nodes : List FileNode) : joinings a b (nodes.map .file) = [] := by
  refine List.filterMap_eq_nil_iff.mpr fun c hc => ?_
  have hFile := List.mem_map.mp (List.fst_mem_of_mem_zipIdx hc)
  obtain ⟨n, -, hn⟩ := hFile
  simp [← hn, between?]

end Change

namespace FileGraph

open Change

/-- The changes that make the edges of a file. -/
def outgoing (p : Program) (f : SourceFile) : List Change :=
  (inOrder (fun a b => Path.le a.1 b.1) (asked p f)).map fun e => .edge f.path e.1 e.2

theorem ofProgram_eq (p : Program) : ofProgram p = (empty p.root).grow
    ((p.files.map .ofFile).map .file ++ p.files.flatMap (outgoing p)) := by
  simp only [grow, List.foldl_append, List.foldl_map, List.foldl_flatMap, outgoing]
  rfl

theorem nodes_grow_edges (g : FileGraph) {edges : List Change}
    (hEdges : ∀ c ∈ edges, ∃ a b symbols, c = .edge a b symbols) : (g.grow edges).nodes = g.nodes := by
  induction edges using List.reverseRecOn with
  | nil => rfl
  | append_singleton edges c ih =>
    obtain ⟨hFirst, hLast⟩ := List.forall_mem_append.mp hEdges
    obtain ⟨a, b, symbols, rfl⟩ := hLast c (List.mem_singleton_self c)
    rw [grow_concat, apply, nodes_addEdge, ih hFirst]

theorem nodes_grow_files (root : Path) {nodes : List FileNode}
    (h : nodes.Pairwise fun m n => m.path.same n.path = false) :
    ((empty root).grow (nodes.map .file)).nodes.toList = nodes := by
  induction nodes using List.reverseRecOn with
  | nil => rfl
  | append_singleton nodes n ih =>
    obtain ⟨hNodes, -, hNew⟩ := List.pairwise_append.mp h
    have hFresh : ((empty root).grow (nodes.map .file)).contains n.path = false := by
      rw [(built_grow root _).contains_eq, node?_grow, ← adds, Bool.eq_false_iff, ne_eq, adds_iff]
      rintro ⟨m, hm, hSame⟩
      obtain ⟨k, hk, hEq⟩ := List.mem_map.mp hm
      cases hEq
      rw [hNew m hk n (List.mem_singleton_self n)] at hSame
      cases hSame
    rw [List.map_append, List.map_singleton, grow_concat, apply, addFile, hFresh]
    simp [ih hNodes]

theorem exists_edge_of_mem_outgoing {p : Program} {c : Change} (h : c ∈ p.files.flatMap (outgoing p)) :
    ∃ a b symbols, c = .edge a b symbols := by
  obtain ⟨f, -, hc⟩ := List.mem_flatMap.mp h
  obtain ⟨e, -, rfl⟩ := List.mem_map.mp hc
  exact ⟨_, _, _, rfl⟩

section Requests

variable {p : Program} {f g : SourceFile}

theorem requests_eq (p : Program) (f : SourceFile) : requests p f =
    f.imports.filterMap (fun i => (p.resolve f.path i.source).map (·, i.symbols)) ++
      f.exports.filterMap fun x => (x.source.bind (p.resolve f.path)).map (·, [x.name]) := by
  simp only [requests, Option.map_bind]
  rfl

/-- Requests that stand for one file are those of the things that resolve to it. -/
theorem filter_requests {α : Type} (target? : α → Option Path) (symbols : α → List String) {q : Path}
    (hq : ∀ x t, target? x = some t → (t.same q = true ↔ t = q)) (xs : List α) :
    ((xs.filterMap fun x => (target? x).map (·, symbols x)).filter (·.1.same q)).flatMap Prod.snd =
      (xs.filter fun x => target? x = some q).flatMap symbols := by
  induction xs with
  | nil => rfl
  | cons x xs ih =>
    cases hx : target? x with
    | none => simpa [hx] using ih
    | some t =>
      have hEq := hq x t hx
      rw [List.filterMap_cons, hx, Option.map_some, List.filter_cons, List.filter_cons]
      by_cases ht : t = q
      · rw [if_pos (hEq.mpr ht), if_pos (by simp [hx, ht]), List.flatMap_cons, List.flatMap_cons, ih]
      · rw [if_neg fun hSame => ht (hEq.mp hSame), if_neg (by simp [hx, ht]), ih]

theorem same_iff_of_resolve (h : p.Read) (hg : g ∈ p.files) {name : String} {t : Path}
    (ht : p.resolve f.path name = some t) : t.same g.path = true ↔ t = g.path :=
  h.same_path_iff hg (Program.mem_paths_of_resolve ht)

theorem same_iff_of_reexport (h : p.Read) (hg : g ∈ p.files) {source : Option String} {t : Path}
    (ht : source.bind (p.resolve f.path) = some t) : t.same g.path = true ↔ t = g.path := by
  obtain ⟨name, -, ht⟩ := Option.bind_eq_some_iff.mp ht
  exact same_iff_of_resolve h hg ht

theorem flatMap_requests (h : p.Read) (hg : g ∈ p.files) :
    ((requests p f).filter (·.1.same g.path)).flatMap Prod.snd = p.drawn f g := by
  have hImports := filter_requests (fun i : Import => p.resolve f.path i.source) Import.symbols
    (fun _ _ ht => same_iff_of_resolve h hg ht) f.imports
  have hExports := filter_requests (fun x : Export => x.source.bind (p.resolve f.path)) (fun x => [x.name])
    (fun _ _ ht => same_iff_of_reexport h hg ht) f.exports
  rw [requests_eq, List.filter_append, List.flatMap_append, hImports, hExports, Program.drawn,
    List.map_eq_flatMap]

theorem any_requests_iff (h : p.Read) (hg : g ∈ p.files) :
    (requests p f).any (·.1.same g.path) = true ↔ p.Requires f g := by
  simp only [requests_eq, List.any_append, Bool.or_eq_true, List.any_eq_true, List.mem_filterMap,
    Option.map_eq_some_iff, Option.bind_eq_some_iff]
  constructor
  · rintro (⟨_, ⟨i, hi, t, ht, rfl⟩, hSame⟩ | ⟨_, ⟨x, hx, t, ⟨source, hSource, ht⟩, rfl⟩, hSame⟩)
    · exact .inl ⟨i, hi, (same_iff_of_resolve h hg ht).mp hSame ▸ ht⟩
    · exact .inr ⟨x, hx, source, hSource, (same_iff_of_resolve h hg ht).mp hSame ▸ ht⟩
  · rintro (⟨i, hi, ht⟩ | ⟨x, hx, source, hSource, ht⟩)
    · exact .inl ⟨_, ⟨i, hi, _, ht, rfl⟩, g.path.same_self⟩
    · exact .inr ⟨_, ⟨x, hx, _, ⟨source, hSource, ht⟩, rfl⟩, g.path.same_self⟩

/-- The gathered table has an entry for each file that is asked, with all that it is asked for. -/
theorem value?_asked (h : p.Read) (hg : g ∈ p.files) [Decidable (p.Requires f g)] :
    (asked p f).value? Path.same g.path = if p.Requires f g then some (p.drawn f g) else none := by
  rw [asked, Table.value?_gather Path.keyed_same, List.foldl_map, List.foldl_append_eq_append,
    List.nil_append, ← List.flatMap_def, flatMap_requests h hg]
  simp only [any_requests_iff h hg]

end Requests

theorem flatMap_eq_of_forall_ne {α β : Type} {xs : List α} {a : α} {F : α → List β} (h : xs.Nodup)
    (ha : a ∈ xs) (hF : ∀ x ∈ xs, x ≠ a → F x = []) : xs.flatMap F = F a := by
  obtain ⟨before, after, rfl⟩ := List.append_of_mem ha
  have hNodup := List.nodup_middle.mp h
  have hOther : ∀ x ∈ before ++ after, F x = [] := by
    intro x hx
    refine hF x (by grind) ?_
    rintro rfl
    exact (List.nodup_cons.mp hNodup).1 hx
  obtain ⟨hBefore, hAfter⟩ := List.forall_mem_append.mp hOther
  rw [List.flatMap_append, List.flatMap_cons, List.flatMap_eq_nil_iff.mpr hBefore,
    List.flatMap_eq_nil_iff.mpr hAfter, List.nil_append, List.append_nil]

section Joinings

variable {p : Program} {f g : SourceFile} (h : p.Read) (hg : g ∈ p.files)

include h hg

theorem outgoing_between [Decidable (p.Requires f g)] :
    (outgoing p f).filterMap (between? f.path g.path) =
      (if p.Requires f g then some (p.drawn f g) else none).toList := by
  have hBetween : (outgoing p f).filterMap (between? f.path g.path) =
      ((inOrder (fun a b => Path.le a.1 b.1) (asked p f)).filter (·.1.same g.path)).map Prod.snd := by
    rw [outgoing, List.filterMap_map, ← List.filterMap_eq_filter, List.map_filterMap]
    refine List.filterMap_congr fun e _ => ?_
    cases hSame : e.1.same g.path <;> simp [between?, Option.guard, hSame]
  -- sorting moves entries, but a file has one at most
  have hApart : (asked p f).Apart Path.same := Table.apart_gather _ _ _
  have hPerm := ((inOrder_perm (fun a b => Path.le a.1 b.1) (asked p f)).filter (·.1.same g.path)).map Prod.snd
  rw [hApart.values_eq Path.keyed_same, value?_asked h hg] at hPerm
  rw [hBetween]
  split at hPerm <;> rename_i hRequires
  · rw [if_pos hRequires]
    exact List.perm_singleton.mp hPerm
  · rw [if_neg hRequires]
    exact List.perm_nil.mp hPerm

theorem joinings_ofProgram (hf : f ∈ p.files) :
    joinings f.path g.path ((p.files.map .ofFile).map .file ++ p.files.flatMap (outgoing p)) =
      (outgoing p f).filterMap (between? f.path g.path) := by
  have hAdds : ∀ k ∈ p.files, adds k.path ((p.files.map .ofFile).map .file) = true := fun k hk =>
    adds_iff.mpr ⟨.ofFile k, List.mem_map_of_mem (List.mem_map_of_mem hk), k.path.same_self⟩
  rw [joinings_append_edges (hAdds f hf) (hAdds g hg) fun _ => exists_edge_of_mem_outgoing, joinings_files,
    List.nil_append, List.filterMap_flatMap]
  -- the edges of another file start elsewhere
  refine flatMap_eq_of_forall_ne h.files_nodup hf fun k hk hNe => ?_
  have hOther : k.path.same f.path = false :=
    Bool.eq_false_iff.mpr fun hSame => hNe (h.eq_of_same hk hf hSame)
  simp [outgoing, between?, hOther]

theorem symbols?_of_requires (hf : f ∈ p.files) (hRequires : p.Requires f g) :
    (ofProgram p).symbols? f.path g.path = some (firstSeen (p.drawn f g)) := by
  classical
  rw [ofProgram_eq, symbols?_grow, joinings_ofProgram h hg hf, outgoing_between h hg, if_pos hRequires]
  simp [merged]

theorem symbols?_of_not_requires (hf : f ∈ p.files) (hRequires : ¬ p.Requires f g) :
    (ofProgram p).symbols? f.path g.path = none := by
  classical
  rw [ofProgram_eq, symbols?_grow, joinings_ofProgram h hg hf, outgoing_between h hg, if_neg hRequires]
  rfl

end Joinings

theorem isSome_edge?_ofProgram {p : Program} (h : p.Read) {f k : SourceFile} (hf : f ∈ p.files)
    (hk : k ∈ p.files) : ((ofProgram p).edge? f.path k.path).isSome = true ↔ p.Requires f k := by
  rw [← Option.isSome_map, ← symbols?]
  by_cases hRequires : p.Requires f k
  · simp [symbols?_of_requires h hk hf hRequires, hRequires]
  · simp [symbols?_of_not_requires h hk hf hRequires, hRequires]

theorem ofProgram_built (p : Program) : (ofProgram p).Built := by
  rw [ofProgram_eq]
  exact (Built.empty p.root).grow _

theorem nodes_ofProgram {p : Program} (h : p.Read) :
    (ofProgram p).nodes.toList = p.files.map FileNode.ofFile := by
  have hDistinct : (p.files.map FileNode.ofFile).Pairwise fun m n => m.path.same n.path = false := by
    refine List.pairwise_map.mpr (h.ordered.imp fun {f g} hLt => Bool.eq_false_iff.mpr fun hSame => ?_)
    have hEq : f.path.cmp g.path = .eq := Path.cmp_eq_iff_same.mpr hSame
    rw [hEq] at hLt
    cases hLt
  rw [ofProgram_eq, grow, List.foldl_append, ← grow, ← grow,
    nodes_grow_edges _ fun _ => exists_edge_of_mem_outgoing, nodes_grow_files _ hDistinct]

theorem indexOf?_ofProgram {p : Program} (h : p.Read) {i : Nat} {f : SourceFile}
    (hi : p.files[i]? = some f) : (ofProgram p).indexOf? f.path = some i := by
  have hNode : (ofProgram p).nodes[i]? = some (.ofFile f) := by
    rw [← Array.getElem?_toList, nodes_ofProgram h, List.getElem?_map, hi, Option.map_some]
  rw [(ofProgram_built p).indexOf?_eq_some_iff, pathAt, Array.getD_eq_getD_getElem?, hNode]
  exact ⟨(Array.getElem?_eq_some_iff.mp hNode).1, f.path.same_self⟩

theorem exists_file_of_lt {p : Program} (h : p.Read) {i : Nat} (hi : i < (ofProgram p).nodes.size) :
    ∃ f ∈ p.files, (ofProgram p).indexOf? f.path = some i := by
  rw [← Array.length_toList, nodes_ofProgram h, List.length_map] at hi
  exact ⟨_, List.getElem_mem hi, indexOf?_ofProgram h (List.getElem?_eq_getElem hi)⟩

/-- The graph of a program has a node for each file and an edge for each pair of files of which
the first asks the second for something. -/
structure DrawsRequests (p : Program) (g : FileGraph) : Prop where
  nodes : g.nodes.toList = p.files.map FileNode.ofFile
  ordered : g.nodes.toList.Pairwise fun m n => Path.cmp m.path n.path = .lt
  number : ∀ i f, p.files[i]? = some f → g.indexOf? f.path = some i
  joined_iff : ∀ f ∈ p.files, ∀ k ∈ p.files, (∃ e, g.edge? f.path k.path = some e) ↔ p.Requires f k
  symbols : ∀ f ∈ p.files, ∀ k ∈ p.files, ∀ e, g.edge? f.path k.path = some e →
    FirstSeen (p.drawn f k) e.symbols
  between : ∀ e ∈ g.edges, ∃ f ∈ p.files, ∃ k ∈ p.files, g.edge? f.path k.path = some e
  single : Single g.edges

theorem ofProgram_draws_requests {p : Program} (h : p.Read) : DrawsRequests p (ofProgram p) := by
  have hBuilt := ofProgram_built p
  have hNodes := nodes_ofProgram h
  constructor
  case nodes => exact hNodes
  case ordered =>
    rw [hNodes]
    exact List.pairwise_map.mpr h.ordered
  case number => exact fun i f hi => indexOf?_ofProgram h hi
  case joined_iff =>
    intro f hf k hk
    rw [← Option.isSome_iff_exists, ← Option.isSome_map, ← symbols?]
    by_cases hRequires : p.Requires f k
    · simp [symbols?_of_requires h hk hf hRequires, hRequires]
    · simp [symbols?_of_not_requires h hk hf hRequires, hRequires]
  case symbols =>
    intro f hf k hk e he
    have hSymbols : (ofProgram p).symbols? f.path k.path = some e.symbols := by
      rw [symbols?, he, Option.map_some]
    by_cases hRequires : p.Requires f k
    · rw [symbols?_of_requires h hk hf hRequires] at hSymbols
      exact Option.some.inj hSymbols ▸ firstSeen_spec _
    · rw [symbols?_of_not_requires h hk hf hRequires] at hSymbols
      cases hSymbols
  case between =>
    intro e he
    obtain ⟨hSource, hTarget⟩ := hBuilt.inside e he
    obtain ⟨f, hf, hFrom⟩ := exists_file_of_lt h hSource
    obtain ⟨k, hk, hTo⟩ := exists_file_of_lt h hTarget
    exact ⟨f, hf, k, hk, hBuilt.edge?_eq_some_iff.mpr ⟨he, hFrom, hTo⟩⟩
  case single => exact hBuilt.single

/-- A file asks another one in four ways, in three spellings, and itself; two names stand for nothing. -/
def entangled : Program :=
  .ofSources (.ofString "/app")
    ([(.ofString "/app/b.js", "export const x = 1;\nexport default x;\n"),
      (.ofString "/app/a.js", "import d, { x } from './b';\nconst b = require('./b.js');\nimport('/b');\n" ++
        "export { x, y } from './b';\nimport './a';\nimport { z } from './c';\nimport 'd';\n")].map
      fun t => (t.1, .ofString t.2)) []

set_option maxRecDepth 100000 in
theorem entangled_draws_requests : entangled.Read ∧
    (ofProgram entangled).edges = [⟨0, 0, []⟩, ⟨0, 1, ["default", "x", "*", "y"]⟩] ∧
    DrawsRequests entangled (ofProgram entangled) :=
  ⟨Program.read_ofSources _ _ _, by decide +kernel, ofProgram_draws_requests (Program.read_ofSources _ _ _)⟩

end FileGraph

end ModuleAtlas
