import ModuleAtlas.Proofs.File.Bindings
import ModuleAtlas.Proofs.Program.Cluster
import ModuleAtlas.Proofs.Program.Files
import ModuleAtlas.Proofs.Program.Unused

/-!
# The order of findings

The entities of a file that was read follow each other, and none is empty. So those of a program
follow each other by path and then by place, and so does everything that a report lists of them.
-/

namespace ModuleAtlas

set_option autoImplicit false

namespace Node

variable {n outer decl value : Node} {x : Declaration} {e : Entity} {lines : LineTable} {bindings : List String}

/-- A node that takes up some text wherever it was read. -/
structure Broad (n : Node) : Prop where
  kind : n.kind.isNarrow = false
  children : n.children ≠ []

theorem children_ne_nil_of_child? {c : Node} {r : Role} (h : n.child? r = some c) : n.children ≠ [] :=
  List.ne_nil_of_mem (mem_of_child? h).1

theorem broad_of_mem_declarationsOf (hOuter : decl.Broad → outer.Broad) (hx : x ∈ declarationsOf outer decl) :
    x.cover.Broad := by
  unfold declarationsOf at hx
  split at hx
  case h_1 hKind | h_2 hKind | h_3 hKind | h_4 hKind =>
    obtain ⟨c, hc, rfl⟩ := Option.map_eq_some_iff.mp (Option.mem_toList.mp hx)
    exact hOuter ⟨by rw [hKind], children_ne_nil_of_child? hc⟩
  case h_5 | h_6 =>
    obtain ⟨d, hd, hx⟩ := List.mem_filterMap.mp hx
    obtain ⟨c, hc, rfl⟩ := Option.map_eq_some_iff.mp hx
    have hKind : d.kind = .variableDeclarator := by simpa using (List.mem_filter.mp hd).2
    exact ⟨by rw [hKind], children_ne_nil_of_child? (Option.filter_eq_some_iff.mp hc).1⟩
  case h_7 => cases hx

theorem broad_of_mem_declarations (hx : x ∈ n.declarations) : x.cover.Broad := by
  unfold declarations at hx
  split at hx
  case isTrue => exact broad_of_mem_declarationsOf id hx
  case isFalse hKind =>
    have hExport : n.kind = .exportStatement := by simpa using hKind
    have hBroad : ∀ {c r}, n.child? r = some c → n.Broad :=
      fun hc => ⟨by rw [hExport], children_ne_nil_of_child? hc⟩
    split at hx
    case h_1 decl hDecl => exact broad_of_mem_declarationsOf (fun _ => hBroad hDecl) hx
    case h_2 =>
      split at hx
      case h_1 value hValue =>
        unfold valueDeclarations at hx
        split at hx
        case h_1 | h_2 | h_3 =>
          obtain ⟨c, -, rfl⟩ := Option.map_eq_some_iff.mp (Option.mem_toList.mp hx)
          exact hBroad hValue
        case h_4 => cases hx
      case h_2 => cases hx

theorem Formed.span_lt (h : n.Formed) (he : e ∈ n.entities lines bindings) : e.span.start < e.span.stop := by
  obtain ⟨m, hm, he⟩ := List.mem_flatMap.mp he
  obtain ⟨x, hx, hDraws⟩ := exists_declaration he
  have hBroad := broad_of_mem_declarations hx
  have hCover : x.cover ∈ n.nodes :=
    mem_nodes_of_child (mem_children_of_named hm) (holds_of_mem_declarations hx).1
  rw [hDraws.span]
  rcases h.stretched x.cover hCover with hNarrow | hEmpty | hLt
  · rw [hBroad.kind] at hNarrow
    cases hNarrow
  · exact absurd hEmpty hBroad.children
  · exact hLt

end Node

namespace SourceFile

variable {path : Path} {source : Source} {f : SourceFile}

theorem pairwise_of_parse (h : parse path source = .ok f) : f.entities.Pairwise Entity.Before := by
  obtain ⟨language, tree, hTree, rfl⟩ := exists_of_parse h
  exact Node.pairwise_entities source (Syntax.formed_of_parse hTree).wellFormed

theorem span_lt_of_parse (h : parse path source = .ok f) {e : Entity} (he : e ∈ f.entities) :
    e.span.start < e.span.stop := by
  obtain ⟨language, tree, hTree, rfl⟩ := exists_of_parse h
  exact (Syntax.formed_of_parse hTree).span_lt he

theorem file_of_mixed? {threshold : Nat} {m : MixedFile} (h : f.mixed? threshold = some m) :
    m.file = f.path := by
  obtain ⟨-, -, rfl⟩ := mixed?_eq_some_iff.mp h
  rfl

end SourceFile

namespace Program

variable {α β : Type} {p : Program} {g : SourceFile → List β} {span : β → Span}

/-- What each file has of something, with the file. -/
def each (p : Program) (g : SourceFile → List β) : List (SourceFile × β) :=
  p.files.flatMap fun f => (g f).map (f, ·)

/-- By path, and in a file by place. -/
def Precedes (span : β → Span) (x y : SourceFile × β) : Prop :=
  Path.cmp x.1.path y.1.path = .lt ∨ x.1 = y.1 ∧ (span x.2).stop ≤ (span y.2).start

theorem mem_each {x : SourceFile × β} : x ∈ p.each g ↔ x.1 ∈ p.files ∧ x.2 ∈ g x.1 := by
  obtain ⟨f, b⟩ := x
  simp only [each, List.mem_flatMap, List.mem_map, Prod.mk.injEq]
  constructor
  · rintro ⟨f, hf, b, hb, rfl, rfl⟩
    exact ⟨hf, hb⟩
  · rintro ⟨hf, hb⟩
    exact ⟨f, hf, b, hb, rfl, rfl⟩

theorem Read.pairwise_each (h : p.Read)
    (hg : ∀ f ∈ p.files, (g f).Pairwise fun a b => (span a).stop ≤ (span b).start) :
    (p.each g).Pairwise (Precedes span) := by
  rw [each, List.pairwise_flatMap]
  constructor
  · intro f hf
    exact List.pairwise_map.mpr ((hg f hf).imp fun hApart => .inr ⟨rfl, hApart⟩)
  · refine h.ordered.imp fun {f g} hLt x hx y hy => ?_
    obtain ⟨_, -, rfl⟩ := List.mem_map.mp hx
    obtain ⟨_, -, rfl⟩ := List.mem_map.mp hy
    exact .inl hLt

theorem Read.pairwise_sublist (h : p.Read) {f : SourceFile} (hf : f ∈ p.files) {es : List Entity}
    (hes : es.Sublist f.entities) : es.Pairwise fun a b => a.span.stop ≤ b.span.start := by
  obtain ⟨text, hText⟩ := h.parsed f hf
  exact ((SourceFile.pairwise_of_parse hText).imp fun hBefore => hBefore.apart).sublist hes

/-- The file and the span tell an entity from all others. -/
theorem Read.nodup_each (h : p.Read) {g : SourceFile → List Entity} (hg : ∀ f, (g f).Sublist f.entities) :
    ((p.each g).map fun x => (x.1.path, x.2.span)).Nodup := by
  have hOrdered : (p.each g).Pairwise (Precedes Entity.span) :=
    h.pairwise_each fun f hf => h.pairwise_sublist hf (hg f)
  refine List.pairwise_map.mpr (hOrdered.imp_of_mem fun {x y} hx _ hPrecedes hEq => ?_)
  obtain ⟨hPath, hSpan⟩ := Prod.mk.inj hEq
  rcases hPrecedes with hLt | ⟨-, hApart⟩
  · rw [hPath] at hLt
    exact Path.cmp_lt_irrefl _ hLt
  · obtain ⟨hf, he⟩ := mem_each.mp hx
    obtain ⟨text, hText⟩ := h.parsed x.1 hf
    have hLt := SourceFile.span_lt_of_parse hText ((hg x.1).subset he)
    rw [hSpan] at hLt hApart
    exact Nat.lt_irrefl _ (Nat.lt_of_lt_of_le hLt hApart)

/-- One record for each of some things of the files of a program, in the order of the things. -/
structure Enumerates (p : Program) (records : List α) (file : α → Path) (things : List (SourceFile × β))
    (span : β → Span) (record : SourceFile → β → α) : Prop where
  records_eq : records = things.map fun x => record x.1 x.2
  file_eq : ∀ x ∈ things, file (record x.1 x.2) = x.1.path
  known : ∀ x ∈ things, x.1 ∈ p.files
  ordered : things.Pairwise (Precedes span)

theorem Read.enumerates (h : p.Read) {file : α → Path} {record : SourceFile → β → α}
    (hFile : ∀ f b, file (record f b) = f.path)
    (hg : ∀ f ∈ p.files, (g f).Pairwise fun a b => (span a).stop ≤ (span b).start) :
    p.Enumerates (p.files.flatMap fun f => (g f).map (record f)) file (p.each g) span record := by
  constructor
  case records_eq =>
    rw [each, List.map_flatMap]
    exact List.flatMap_congr fun f _ => by rw [List.map_map]; rfl
  case file_eq => exact fun x _ => hFile x.1 x.2
  case known => exact fun x hx => (mem_each.mp hx).1
  case ordered => exact h.pairwise_each hg

def unused (p : Program) (kinds : List EntityKind) : List (SourceFile × Entity) :=
  p.each fun f => f.entities.filter fun e => e.kind ∈ kinds ∧ p.Unused f e

def complex (p : Program) (threshold : Nat) : List (SourceFile × Entity) :=
  p.each fun f => f.entities.filter fun e => e.isFunctionLike && decide (threshold < e.complexity)

def unusedBinders (p : Program) (lines : SourceFile → LineTable) : List (SourceFile × Binder) :=
  p.each fun f => (f.tree.binders (lines f)).filter fun b => ¬ f.tree.MentionsOutside b.name

theorem Read.exists_lines (h : p.Read) :
    ∃ lines : SourceFile → LineTable, ∀ f ∈ p.files, f.imports = f.tree.imports (lines f) := by
  have hLines : ∀ f, ∃ lines, f ∈ p.files → f.imports = f.tree.imports lines := by
    intro f
    by_cases hf : f ∈ p.files
    · obtain ⟨text, hText⟩ := h.parsed f hf
      obtain ⟨language, tree, -, hTree⟩ := SourceFile.exists_of_parse hText
      exact ⟨.ofSource (.ofString text), fun _ => by rw [hTree]; rfl⟩
    · exact ⟨⟨#[]⟩, fun hMem => absurd hMem hf⟩
  choose lines hLines using hLines
  exact ⟨lines, hLines⟩

theorem Read.pairwise_binders (h : p.Read) {f : SourceFile} (hf : f ∈ p.files) (lines : LineTable) :
    (f.tree.binders lines).Pairwise fun a b => a.writer.stop ≤ b.writer.start := by
  obtain ⟨text, hText⟩ := h.parsed f hf
  obtain ⟨language, tree, hTree, hf⟩ := SourceFile.exists_of_parse hText
  rw [hf]
  exact Node.pairwise_binders (Syntax.formed_of_parse hTree).wellFormed

theorem Read.nodup_unused (h : p.Read) (kinds : List EntityKind) :
    ((p.unused kinds).map fun x => (x.1.path, x.2.span)).Nodup :=
  h.nodup_each fun _ => List.filter_sublist

theorem mem_unused {kinds : List EntityKind} {x : SourceFile × Entity} (hx : x ∈ p.unused kinds) :
    x ∈ p.each SourceFile.entities ∧ x.2.kind ∈ kinds := by
  obtain ⟨hFile, hEntity⟩ := mem_each.mp hx
  obtain ⟨hEntity, hKind⟩ := List.mem_filter.mp hEntity
  exact ⟨mem_each.mpr ⟨hFile, hEntity⟩, (of_decide_eq_true hKind).1⟩

theorem Read.disjoint_unused (h : p.Read) {kinds kinds' : List EntityKind} (hKinds : kinds.Disjoint kinds') :
    ((p.unused kinds).map fun x => (x.1.path, x.2.span)).Disjoint
      ((p.unused kinds').map fun x => (x.1.path, x.2.span)) := by
  intro spot hLeft hRight
  obtain ⟨x, hx, rfl⟩ := List.mem_map.mp hLeft
  obtain ⟨y, hy, hSpot⟩ := List.mem_map.mp hRight
  obtain ⟨hx, hKind⟩ := mem_unused hx
  obtain ⟨hy, hKind'⟩ := mem_unused hy
  have hDistinct := h.nodup_each fun f => List.Sublist.refl f.entities
  rw [List.inj_on_of_nodup_map hDistinct hy hx hSpot] at hKind'
  exact hKinds hKind hKind'

end Program

namespace Report

/-- The lists of a report are in the order of the program, and no entity is in two of them. -/
structure ListsInOrder (r : Report) (p : Program) (thresholds : Thresholds) : Prop where
  imports : ∃ lines : SourceFile → LineTable, (∀ f ∈ p.files, f.imports = f.tree.imports (lines f)) ∧
    p.Enumerates r.unusedImports UnusedImport.file (p.unusedBinders lines)
      (fun b => ⟨b.writer.start, b.writer.stop⟩)
      fun f b => ⟨f.path, b.name, b.specifier.requested?.getD "*", b.origin.line, b.origin.source⟩
  functions : p.Enumerates r.unusedFunctions UnusedFunction.file (p.unused [.function]) Entity.span
    fun f e => ⟨f.path, e.name, e.startLine, e.exported, e.complexity⟩
  components : p.Enumerates r.unusedComponents UnusedFunction.file (p.unused [.component]) Entity.span
    fun f e => ⟨f.path, e.name, e.startLine, e.exported, e.complexity⟩
  deadCode : p.Enumerates r.deadCode DeadCode.file (p.unused [.class_, .constant]) Entity.span
    fun f e => ⟨f.path, e.name, e.kind, e.startLine, e.exported⟩
  warnings : p.Enumerates r.complexityWarnings ComplexityWarning.file (p.complex thresholds.complexity)
    Entity.span fun f e => ⟨f.path, e.name, e.kind, e.startLine, e.complexity, thresholds.complexity⟩
  mixed_ordered : r.mixedFiles.Pairwise fun m m' => Path.cmp m.file m'.file = .lt
  mixed_known : ∀ m ∈ r.mixedFiles, m.file ∈ p.paths
  once : ((p.unused [.function] ++ p.unused [.component] ++ p.unused [.class_, .constant]).map
    fun x => (x.1.path, x.2.span)).Nodup

end Report

namespace Program

variable {p : Program}

theorem report_lists_in_order (h : p.Read) (thresholds : Thresholds) (generatedAt : Timestamp) :
    ((Session.ofProgram thresholds p).report generatedAt).ListsInOrder p thresholds := by
  have hLists := p.listsUnused thresholds generatedAt
  constructor
  case imports =>
    obtain ⟨lines, hLines⟩ := h.exists_lines
    refine ⟨lines, hLines, ?_⟩
    have hRecords : ((Session.ofProgram thresholds p).report generatedAt).unusedImports =
        p.files.flatMap fun f => ((f.tree.binders (lines f)).filter fun b =>
          ¬ f.tree.MentionsOutside b.name).map fun b =>
            ⟨f.path, b.name, b.specifier.requested?.getD "*", b.origin.line, b.origin.source⟩ :=
      List.flatMap_congr fun f hf => SourceFile.unusedImports_eq (hLines f hf)
    rw [hRecords]
    exact h.enumerates (fun _ _ => rfl) fun f hf => (h.pairwise_binders hf (lines f)).filter _
  case functions =>
    rw [hLists.functions]
    simp only [← List.mem_singleton]
    exact h.enumerates (fun _ _ => rfl) fun f hf => h.pairwise_sublist hf List.filter_sublist
  case components =>
    rw [hLists.components]
    simp only [← List.mem_singleton]
    exact h.enumerates (fun _ _ => rfl) fun f hf => h.pairwise_sublist hf List.filter_sublist
  case deadCode =>
    rw [hLists.deadCode]
    simp only [← List.mem_pair]
    exact h.enumerates (fun _ _ => rfl) fun f hf => h.pairwise_sublist hf List.filter_sublist
  case warnings =>
    exact h.enumerates (fun _ _ => rfl) fun f hf => h.pairwise_sublist hf List.filter_sublist
  case mixed_ordered =>
    refine List.Pairwise.filterMap _ (fun f g hLt m hm m' hm' => ?_) h.ordered
    rw [SourceFile.file_of_mixed? hm, SourceFile.file_of_mixed? hm']
    exact hLt
  case mixed_known =>
    intro m hm
    obtain ⟨f, hf, hm⟩ := List.mem_filterMap.mp hm
    rw [SourceFile.file_of_mixed? hm]
    exact List.mem_map_of_mem hf
  case once =>
    rw [List.map_append, List.map_append]
    refine ((h.nodup_unused _).append (h.nodup_unused _) (h.disjoint_unused ?_)).append (h.nodup_unused _) ?_
    · simp
    · exact List.disjoint_append_left.mpr ⟨h.disjoint_unused (by simp), h.disjoint_unused (by simp)⟩

/-- Two files out of order, with something for each of the lists of unused entities. -/
def leftovers : Program :=
  .ofSources (.ofString "/app")
    ([(.ofString "/app/b.js", "const two = 2, one = 1;\nclass Last {}\n"),
      (.ofString "/app/a.js", "function late() {}\nconst Early = () => <p/>;\n")].map fun t => (t.1, .ofString t.2)) []

set_option maxRecDepth 100000 in
theorem leftovers_listed_in_order : leftovers.Read ∧
    (leftovers.unused [.function] ++ leftovers.unused [.component] ++ leftovers.unused [.class_, .constant]).map
        (fun x => (x.1.path, x.2.name)) =
      [(.ofString "/app/a.js", "late"), (.ofString "/app/a.js", "Early"), (.ofString "/app/b.js", "two"),
       (.ofString "/app/b.js", "one"), (.ofString "/app/b.js", "Last")] ∧
    ∀ thresholds generatedAt,
      ((Session.ofProgram thresholds leftovers).report generatedAt).ListsInOrder leftovers thresholds :=
  ⟨read_ofSources _ _ _, by decide +kernel, report_lists_in_order (read_ofSources _ _ _)⟩

end Program

end ModuleAtlas
