import ModuleAtlas.File.Finding
import ModuleAtlas.Proofs.File.Declarations
import ModuleAtlas.Proofs.File.Exports
import ModuleAtlas.Proofs.Syntax.Formed
import ModuleAtlas.Proofs.Syntax.Surface
import ModuleAtlas.Proofs.Collection

/-!
# Bindings of imports that nothing mentions

The import statements of a file are the outermost ones of its tree. What they bind is written by
nodes that follow each other, and a binding is reported as unused exactly if no name outside of
all import statements has its text. So a binding that an entity depends on is not reported.
-/

namespace ModuleAtlas

set_option autoImplicit false

/-- A specifier that binds a name, with its import and the node that writes it. -/
structure Binder where
  origin : Import
  specifier : Specifier
  name : String
  writer : Node

namespace Node

@[reducible]
def isImport (n : Node) : Bool := n.kind == .importStatement

/-- The nodes of a part of an import clause that may write a specifier. -/
def partWriters (part : Node) : List Node :=
  match part.kind with
  | .identifier | .namespaceImport => [part]
  | .namedImports => part.children.filter (·.kind == .importSpecifier)
  | _ => []

def clauseWriters (clause : Node) : List Node := clause.children.flatMap partWriters

def written? (w : Node) : Option Specifier :=
  match w.kind with
  | .identifier => some (.byDefault w.text)
  | .namespaceImport => (w.children.find? (·.kind == .identifier)).map fun name => .star name.text
  | .importSpecifier => w.namedSpecifier?
  | _ => none

def writers (statement : Node) : List Node :=
  (statement.children.filter (·.kind == .importClause)).flatMap clauseWriters

def statementBinders (lines : LineTable) (n : Node) : List Binder :=
  (n.statementImport? lines).toList.flatMap fun i =>
    n.writers.filterMap fun w =>
      w.written?.bind fun s => s.binding?.map fun name => ⟨i, s, name, w⟩

def binders (lines : LineTable) (root : Node) : List Binder :=
  (root.outermost isImport).flatMap (statementBinders lines)

/-- A name outside all import statements has the text. -/
def MentionsOutside (root : Node) (text : String) : Prop :=
  ∃ m, Outside isImport root m ∧ m.isName = true ∧ m.text = text

section Writers

variable {n w part clause : Node} {lines : LineTable} {i : Import} {s : Specifier}

theorem clauseSpecifiers_eq (clause : Node) :
    clause.clauseSpecifiers = clause.clauseWriters.filterMap written? := by
  rw [clauseWriters, List.filterMap_flatMap]
  refine List.flatMap_congr fun c _ => ?_
  split
  case h_1 hKind => simp [partWriters, written?, hKind]
  case h_2 hKind =>
    have hWriters : c.partWriters = [c] := by simp only [partWriters, hKind]
    rw [hWriters, List.filterMap_cons, List.filterMap_nil, written?, hKind]
    cases c.children.find? (·.kind == .identifier) <;> rfl
  case h_3 hKind =>
    have hWriters : c.partWriters = c.children.filter (·.kind == .importSpecifier) := by
      simp only [partWriters, hKind]
    rw [hWriters, List.filterMap_filter]
    refine List.filterMap_congr fun w _ => ?_
    by_cases hw : w.kind = .importSpecifier <;> simp [hw, written?]
  case h_4 => simp [partWriters]

theorem exists_binding_of_written? (h : w.written? = some s) : ∃ name, s.binding? = some name := by
  unfold written? at h
  split at h
  case h_1 =>
    cases h
    exact ⟨_, rfl⟩
  case h_2 | h_3 =>
    obtain ⟨name, -, rfl⟩ := Option.map_eq_some_iff.mp h
    exact ⟨_, rfl⟩
  case h_4 => cases h

theorem mem_nodes_of_partWriters (hw : w ∈ part.partWriters) : w ∈ part.nodes := by
  unfold partWriters at hw
  split at hw
  case h_1 | h_2 =>
    rw [List.mem_singleton.mp hw]
    exact part.self_mem_nodes
  case h_3 => exact mem_nodes_of_child (List.mem_filter.mp hw).1 w.self_mem_nodes
  case h_4 => cases hw

theorem pairwise_partWriters (h : part.WellFormed) :
    part.partWriters.Pairwise fun w v => w.stop ≤ v.start := by
  unfold partWriters
  split
  case h_1 | h_2 => exact List.pairwise_singleton _ _
  case h_3 => exact h.pairwise_children.filter _
  case h_4 => exact .nil

theorem mem_nodes_of_clauseWriters (hw : w ∈ clause.clauseWriters) : w ∈ clause.nodes := by
  obtain ⟨c, hc, hw⟩ := List.mem_flatMap.mp hw
  exact mem_nodes_of_child hc (mem_nodes_of_partWriters hw)

/-- Nodes taken from children that stand apart stand apart, if those from one child do. -/
theorem WellFormed.pairwise_flatMap {cs : List Node} {f : Node → List Node} (h : n.WellFormed)
    (hcs : cs.Sublist n.children) (hInside : ∀ c ∈ cs, ∀ w ∈ f c, w ∈ c.nodes)
    (hApart : ∀ c ∈ cs, (f c).Pairwise fun w v => w.stop ≤ v.start) :
    (cs.flatMap f).Pairwise fun w v => w.stop ≤ v.start := by
  rw [List.pairwise_flatMap]
  refine ⟨hApart, (h.pairwise_children.sublist hcs).imp_of_mem fun {c d} hc hd hcd w hw v hv => ?_⟩
  have hw := (h.of_child (hcs.subset hc)).inside (hInside c hc w hw)
  have hv := (h.of_child (hcs.subset hd)).inside (hInside d hd v hv)
  exact Nat.le_trans hw.stop_le (Nat.le_trans hcd hv.start_le)

theorem pairwise_clauseWriters (h : clause.WellFormed) :
    clause.clauseWriters.Pairwise fun w v => w.stop ≤ v.start := by
  refine h.pairwise_flatMap (.refl _) (fun c _ w hw => mem_nodes_of_partWriters hw) fun c hc => ?_
  exact pairwise_partWriters (h.of_child hc)

theorem mem_nodes_of_writers (hw : w ∈ n.writers) : w ∈ n.nodes := by
  obtain ⟨c, hc, hw⟩ := List.mem_flatMap.mp hw
  exact mem_nodes_of_child (List.mem_filter.mp hc).1 (mem_nodes_of_clauseWriters hw)

theorem pairwise_writers (h : n.WellFormed) : n.writers.Pairwise fun w v => w.stop ≤ v.start := by
  refine h.pairwise_flatMap List.filter_sublist (fun c _ w hw => mem_nodes_of_clauseWriters hw) ?_
  exact fun c hc => pairwise_clauseWriters (h.of_child (List.mem_filter.mp hc).1)

theorem form_of_statementImport? (h : n.statementImport? lines = some i) : i.form = .statement := by
  cases (Option.ite_none_left_eq_some.mp h).2
  rfl

/-- The specifiers that bind something are those that a node of the statement writes. -/
theorem filter_specifiers (h : n.statementImport? lines = some i) :
    i.specifiers.filter (·.binding?.isSome) = n.writers.filterMap written? := by
  have hFound : (n.children.filter (·.kind == .importClause)).flatMap clauseSpecifiers =
      n.writers.filterMap written? := by
    rw [writers, List.filterMap_flatMap]
    exact List.flatMap_congr fun c _ => clauseSpecifiers_eq c
  have hBound : ∀ s ∈ n.writers.filterMap written?, s.binding?.isSome = true := by
    intro s hs
    obtain ⟨w, -, hw⟩ := List.mem_filterMap.mp hs
    exact Option.isSome_iff_exists.mpr (exists_binding_of_written? hw)
  cases (Option.ite_none_left_eq_some.mp h).2
  dsimp only
  rw [hFound]
  split
  case isTrue hEmpty => rw [List.isEmpty_iff.mp hEmpty]; rfl
  case isFalse => exact List.filter_eq_self.mpr hBound

end Writers

section Statements

variable {n : Node} {lines : LineTable}

theorem filter_imports (lines : LineTable) (n : Node) : (n.imports lines).filter (·.form == .statement) =
    (n.outermost isImport).filterMap (statementImport? lines) := by
  let found (m : Node) : Option Import := if m.isImport then m.statementImport? lines else none
  rw [outermost, List.filterMap_filter, imports_eq, List.filter_reverse, List.reverse_eq_iff]
  refine (@walkUnder_surface _ _ isImport _ (List.filter (·.form == .statement)) found ?_ ?_ none n []).trans
    (List.append_nil _)
  · intro parent m state
    rfl
  · intro parent m state
    rw [show found m = if m.isImport then m.statementImport? lines else none from rfl]
    simp only [collect, importAt?]
    split
    case h_1 hKind =>
      rw [if_pos (beq_iff_eq.mpr hKind), List.filter_append, List.filter_eq_self.mpr]
      intro i hi
      rw [form_of_statementImport? (Option.mem_toList.mp hi)]
      rfl
    case h_2 hKind =>
      rw [if_neg (by simp [isImport, hKind]), List.filter_append, List.filter_eq_nil_iff.mpr]
      · rfl
      intro i hi
      simpa using form_of_callImport? (Option.mem_toList.mp hi)
    case h_3 hKind _ =>
      rw [if_neg (by simpa [isImport] using hKind)]
      rfl

theorem map_binders (lines : LineTable) (n : Node) :
    (n.binders lines).map (fun b => (b.origin, b.specifier)) =
      ((n.imports lines).filter (·.form == .statement)).flatMap fun i =>
        (i.specifiers.filter (·.binding?.isSome)).map (i, ·) := by
  rw [filter_imports, List.filterMap_eq_flatMap_toList, List.flatMap_assoc, binders, List.map_flatMap]
  refine List.flatMap_congr fun m _ => ?_
  unfold statementBinders
  cases hm : m.statementImport? lines with
  | none => rfl
  | some i =>
    rw [Option.toList_some, List.flatMap_singleton, List.flatMap_singleton, filter_specifiers hm,
      List.map_filterMap, List.map_filterMap]
    refine List.filterMap_congr fun w _ => ?_
    cases hs : w.written? with
    | none => rfl
    | some s =>
      obtain ⟨name, hName⟩ := exists_binding_of_written? hs
      simp [hName]

theorem mem_statementBinders {b : Binder} (hb : b ∈ n.statementBinders lines) :
    b.writer ∈ n.writers ∧ b.specifier.binding? = some b.name := by
  obtain ⟨i, -, hb⟩ := List.mem_flatMap.mp hb
  obtain ⟨w, hw, hb⟩ := List.mem_filterMap.mp hb
  obtain ⟨s, -, hb⟩ := Option.bind_eq_some_iff.mp hb
  obtain ⟨name, hName, rfl⟩ := Option.map_eq_some_iff.mp hb
  exact ⟨hw, hName⟩

theorem pairwise_statementBinders (h : n.WellFormed) :
    (n.statementBinders lines).Pairwise fun b c => b.writer.stop ≤ c.writer.start := by
  unfold statementBinders
  cases n.statementImport? lines with
  | none => exact .nil
  | some i =>
    rw [Option.toList_some, List.flatMap_singleton]
    refine (pairwise_writers h).filterMap _ fun w v hApart b hb c hc => ?_
    obtain ⟨s, -, hb⟩ := Option.bind_eq_some_iff.mp hb
    obtain ⟨name, -, rfl⟩ := Option.map_eq_some_iff.mp hb
    obtain ⟨s', -, hc⟩ := Option.bind_eq_some_iff.mp hc
    obtain ⟨name', -, rfl⟩ := Option.map_eq_some_iff.mp hc
    exact hApart

theorem binding?_of_mem_binders {b : Binder} (hb : b ∈ n.binders lines) :
    b.specifier.binding? = some b.name := by
  obtain ⟨m, -, hb⟩ := List.mem_flatMap.mp hb
  exact (mem_statementBinders hb).2

theorem pairwise_binders (h : n.WellFormed) :
    (n.binders lines).Pairwise fun b c => b.writer.stop ≤ c.writer.start := by
  have hFormed : ∀ m ∈ n.outermost isImport, m.WellFormed := fun m hm =>
    h.of_mem (mem_nodes_of_surface n (List.mem_filter.mp hm).1)
  have hInside : ∀ m ∈ n.outermost isImport, ∀ b ∈ m.statementBinders lines, b.writer.Inside m :=
    fun m hm b hb => (hFormed m hm).inside (mem_nodes_of_writers (mem_statementBinders hb).1)
  rw [binders, List.pairwise_flatMap]
  refine ⟨fun m hm => pairwise_statementBinders (hFormed m hm), ?_⟩
  refine (WellFormed.pairwise_outermost n h).imp_of_mem fun {m k} hm hk hApart b hb c hc => ?_
  have hb := hInside m hm b hb
  have hc := hInside k hk c hc
  exact Nat.le_trans hb.stop_le (Nat.le_trans hApart hc.start_le)

theorem mem_texts_iff {root : Node} {text : String} :
    text ∈ (root.tokensBut isImport).map Token.text ↔ root.MentionsOutside text := by
  simp only [List.mem_map, mem_tokensBut, MentionsOutside]
  constructor
  · rintro ⟨_, ⟨m, hm, hName, rfl⟩, rfl⟩
    exact ⟨m, hm, hName, rfl⟩
  · rintro ⟨m, hm, hName, rfl⟩
    exact ⟨_, ⟨m, hm, hName, rfl⟩, rfl⟩

instance (root : Node) (text : String) : Decidable (root.MentionsOutside text) :=
  decidable_of_iff _ mem_texts_iff

end Statements

section Covers

variable {n outer decl : Node} {x : Declaration}

theorem outside_of_mem_declarationsOf (hOuter : outer.isImport = false)
    (hDecl : decl.isImport = false → Outside isImport outer decl) (hx : x ∈ declarationsOf outer decl)
    (hCover : x.cover.isImport = false) : Outside isImport outer x.cover := by
  unfold declarationsOf at hx
  split at hx
  case h_1 | h_2 | h_3 | h_4 =>
    obtain ⟨c, -, rfl⟩ := Option.map_eq_some_iff.mp (Option.mem_toList.mp hx)
    exact .here hOuter
  case h_5 hKind | h_6 hKind =>
    have hPlain : decl.isImport = false := by simp [isImport, hKind]
    obtain ⟨d, hd, hx⟩ := List.mem_filterMap.mp hx
    obtain ⟨c, -, rfl⟩ := Option.map_eq_some_iff.mp hx
    have hChild : d ∈ decl.children := mem_children_of_named (List.mem_filter.mp hd).1
    exact (hDecl hPlain).trans (.child hPlain hChild (.here hCover))
  case h_7 => cases hx

/-- No import statement stands between a statement and what its declarations cover. -/
theorem outside_of_mem_declarations (hx : x ∈ n.declarations) (hCover : x.cover.isImport = false) :
    Outside isImport n x.cover := by
  unfold declarations at hx
  split at hx
  case isTrue =>
    cases hImport : n.isImport with
    | true => simp [declarationsOf, show n.kind = .importStatement by simpa using hImport] at hx
    | false => exact outside_of_mem_declarationsOf hImport .here hx hCover
  case isFalse hKind =>
    have hImport : n.isImport = false := by
      have hExport : n.kind = .exportStatement := by simpa using hKind
      simp [isImport, hExport]
    split at hx
    case h_1 decl hDecl =>
      exact outside_of_mem_declarationsOf hImport
        (fun hPlain => .child hImport (mem_of_child? hDecl).1 (.here hPlain)) hx hCover
    case h_2 =>
      split at hx
      case h_1 value hValue =>
        unfold valueDeclarations at hx
        split at hx
        case h_1 | h_2 | h_3 =>
          obtain ⟨c, -, rfl⟩ := Option.map_eq_some_iff.mp (Option.mem_toList.mp hx)
          exact .here hImport
        case h_4 => cases hx
      case h_2 => cases hx

end Covers

end Node

namespace SourceFile

open Node

/-- What a specifier is reported as, if it binds a name that nothing mentions. -/
def reported? (f : SourceFile) (i : Import) (s : Specifier) : Option UnusedImport :=
  s.binding?.bind fun name =>
    if f.tree.MentionsOutside name then none
    else some ⟨f.path, name, s.requested?.getD "*", i.line, i.source⟩

theorem unusedImports_eq_flatMap (f : SourceFile) : f.unusedImports =
    (f.imports.filter (·.form == .statement)).flatMap fun i => i.specifiers.filterMap (f.reported? i) := by
  unfold unusedImports
  refine List.flatMap_congr fun i _ => List.filterMap_congr fun s _ => ?_
  unfold reported?
  cases s.binding? with
  | none => rfl
  | some name =>
    have hUsed : (f.tokensOutsideImports.map Token.text).contains name = true ↔ f.tree.MentionsOutside name :=
      List.contains_iff_mem.trans mem_texts_iff
    by_cases hMentions : f.tree.MentionsOutside name
    · simp only [Option.bind_some, if_pos (hUsed.mpr hMentions), if_pos hMentions]
    · simp only [Option.bind_some, if_neg (mt hUsed.mp hMentions), if_neg hMentions]

theorem unusedImports_eq {f : SourceFile} {lines : LineTable} (h : f.imports = f.tree.imports lines) :
    f.unusedImports = ((f.tree.binders lines).filter fun b => ¬ f.tree.MentionsOutside b.name).map
      fun b => ⟨f.path, b.name, b.specifier.requested?.getD "*", b.origin.line, b.origin.source⟩ := by
  have hBinding : ∀ i s, f.reported? i s = if s.binding?.isSome then f.reported? i s else none := by
    intro i s
    unfold reported?
    cases s.binding? <;> rfl
  calc f.unusedImports
    _ = ((f.imports.filter (·.form == .statement)).flatMap fun i =>
          (i.specifiers.filter (·.binding?.isSome)).map (i, ·)).filterMap fun x => f.reported? x.1 x.2 := by
        rw [unusedImports_eq_flatMap, List.filterMap_flatMap]
        refine List.flatMap_congr fun i _ => ?_
        rw [List.filterMap_map, List.filterMap_filter]
        exact List.filterMap_congr fun s _ => hBinding i s
    _ = (f.tree.binders lines).filterMap fun b => f.reported? b.origin b.specifier := by
        rw [h, ← map_binders, List.filterMap_map]
        rfl
    _ = _ := by
        rw [← List.filterMap_eq_map', List.filterMap_filter]
        refine List.filterMap_congr fun b hb => ?_
        rw [reported?, binding?_of_mem_binders hb, Option.bind_some]
        by_cases hMentions : f.tree.MentionsOutside b.name <;> simp [hMentions]

/-- What is known of the bindings that a file reports as unused. -/
structure ListsUnmentioned (f : SourceFile) (lines : LineTable) : Prop where
  binders : (f.tree.binders lines).map (fun b => (b.origin, b.specifier)) =
    (f.imports.filter (·.form == .statement)).flatMap fun i =>
      (i.specifiers.filter (·.binding?.isSome)).map (i, ·)
  bound : ∀ b ∈ f.tree.binders lines, b.specifier.binding? = some b.name
  ordered : (f.tree.binders lines).Pairwise fun b c => b.writer.stop ≤ c.writer.start
  listed : f.unusedImports = ((f.tree.binders lines).filter fun b => ¬ f.tree.MentionsOutside b.name).map
    fun b => ⟨f.path, b.name, b.specifier.requested?.getD "*", b.origin.line, b.origin.source⟩
  agrees : ∀ e ∈ f.entities, ∃ n ∈ f.tree.namedChildren, ∃ x ∈ n.declarations, x.Draws lines n e ∧
    ((∀ m ∈ x.cover.nodes, m.kind ≠ .importStatement) →
      ∀ name ∈ e.dependencies, ∀ u ∈ f.unusedImports, u.name ≠ name)

theorem mentionsOutside_of_mem_dependencies {root n : Node} {x : Declaration} {lines : LineTable}
    {bindings : List String} {standing : Standing} {kind : EntityKind} {body : Node} {name : String}
    (hRoot : root.isImport = false) (hn : n ∈ root.namedChildren) (hx : x ∈ n.declarations)
    (hFree : ∀ m ∈ x.cover.nodes, m.isImport = false)
    (hName : name ∈ (entity lines bindings standing x.token.text kind n x.cover body).dependencies) :
    root.MentionsOutside name := by
  have hMember : name ∈ Text.setOf (x.cover.tokens.map Token.text) := (List.mem_filter.mp hName).1
  rw [Text.mem_setOf, tokens_eq, List.map_map, List.mem_map] at hMember
  obtain ⟨m, hm, rfl⟩ := hMember
  obtain ⟨hm, hIsName⟩ := List.mem_filter.mp hm
  have hCover := outside_of_mem_declarations hx (hFree _ x.cover.self_mem_nodes)
  have hOutside : Outside isImport root x.cover := .child hRoot (mem_children_of_named hn) hCover
  exact ⟨m, hOutside.of_mem hFree hm, hIsName, rfl⟩

theorem unusedImports_lists_unmentioned {path : Path} {source : Source} {f : SourceFile}
    (h : parse path source = .ok f) : f.ListsUnmentioned (.ofSource source) := by
  obtain ⟨language, tree, hTree, rfl⟩ := exists_of_parse h
  have hListed := unusedImports_eq (f := ofTree path language (.ofSource source) tree) rfl
  constructor
  case binders => exact map_binders _ tree
  case bound => exact fun b hb => binding?_of_mem_binders hb
  case ordered => exact pairwise_binders (Syntax.formed_of_parse hTree).wellFormed
  case listed => exact hListed
  case agrees =>
    intro e he
    obtain ⟨n, hn, he⟩ := List.mem_flatMap.mp he
    obtain ⟨x, hx, standing, kind, body, rfl⟩ := exists_entity he
    refine ⟨n, hn, x, hx, ⟨rfl, rfl, rfl⟩, fun hFree name hName u hu hEq => ?_⟩
    have hRoot : tree.isImport = false := by simp [isImport, Syntax.kind_of_parse hTree]
    have hMentions := mentionsOutside_of_mem_dependencies hRoot hn hx
      (fun m hm => by simpa [isImport] using hFree m hm) hName
    rw [hListed] at hu
    obtain ⟨b, hb, rfl⟩ := List.mem_map.mp hu
    cases hEq
    exact of_decide_eq_true (List.mem_filter.mp hb).2 hMentions

/-- Of four bindings a function uses two, and an export names a third one. -/
def mixedImports : Source :=
  .ofString "import a, { b as c, d } from './m';\nimport * as e from './n';\nimport './o';\nfunction f() { return c(e); }\nexport { d };\n"

set_option maxRecDepth 100000 in
theorem mixed_imports_unmentioned_listed : ∃ f, parse (.ofString "/app/a.js") mixedImports = .ok f ∧
    (f.unusedImports.map UnusedImport.name = ["a"] ∧ f.entities.map Entity.name = ["f"]) ∧
    f.ListsUnmentioned (.ofSource mixedImports) :=
  Exists.imp (fun _ h => ⟨h.1, h.2, unusedImports_lists_unmentioned h.1⟩)
    (exists_parsed (.ofString "/app/a.js") mixedImports (by decide +kernel))

end SourceFile

end ModuleAtlas
