import ModuleAtlas.Export.Json
import ModuleAtlas.Proofs.Document.Written
import ModuleAtlas.Proofs.Path.Display
import ModuleAtlas.Proofs.Report.Timestamp
import ModuleAtlas.Proofs.Text.Legible
import Mathlib.Data.List.Forall2
import Mathlib.Data.Set.Function

/-!
# What the JSON export keeps

A document tells which report it was made of: a record is told from its fields, a list from its
items, and a field that is left out from one that is there. Of the graph all is kept but the paths
of the nodes. As a document is told from its text, so are the graph and, but for times that are
written alike, the report.
-/

namespace ModuleAtlas

set_option autoImplicit false

namespace Path

theorem intercalate_split (text : List Char) : ['/'].intercalate (Text.split (· == '/') text) = text := by
  induction text with
  | nil => rfl
  | cons c rest ih =>
    obtain ⟨w, ws, hRest⟩ := List.exists_cons_of_ne_nil (Text.split_ne_nil (p := (· == '/')) rest)
    rw [hRest] at ih
    by_cases hc : c = '/'
    · subst hc
      rw [Text.split, if_pos (by decide), hRest, List.intercalate_cons_cons, ih]
      rfl
    · rw [Text.split_cons_of_free (by simpa using hc) hRest]
      rw [← ih]
      cases ws with
      | nil => simp only [List.intercalate_singleton]
      | cons v vs => simp only [List.intercalate_cons_cons, List.cons_append]

theorem intercalate_piecesOf (chars : List Char) :
    ("/".intercalate ((piecesOf chars).map Piece.text)).toList = chars := by
  rw [String.toList_intercalate, piecesOf]
  split
  · rename_i hEmpty
    rw [List.isEmpty_iff.mp hEmpty]
    rfl
  · have hText : ∀ word : List Char, (Piece.text (.ofString (.ofList word))).toList = word := by
      intro word
      rw [Piece.text_ofString, String.toList_ofList]
    simp only [List.map_map, Function.comp_def, hText, List.map_id']
    exact intercalate_split chars

theorem text_ofString (s : String) : (ofString s).text = s := by
  apply String.toList_injective
  rw [text, String.toList_append, ofString]
  split
  · rename_i rest hText
    rw [intercalate_piecesOf, hText]
    simp
  · rw [intercalate_piecesOf]
    rfl

/-- Some text is read as the path. -/
def Spelled (p : Path) : Prop := ∃ s, ofString s = p

theorem Spelled.text_inj {p q : Path} (hp : p.Spelled) (hq : q.Spelled) : p.text = q.text ↔ p = q := by
  obtain ⟨s, rfl⟩ := hp
  obtain ⟨t, rfl⟩ := hq
  constructor
  · intro h
    rw [text_ofString, text_ofString] at h
    rw [h]
  · exact congrArg text

end Path

section Labels

theorem EntityKind.label_inj {k k' : EntityKind} : k.label = k'.label ↔ k = k' := by
  cases k <;> cases k' <;> decide

theorem DiagnosticKind.label_inj {k k' : DiagnosticKind} : k.label = k'.label ↔ k = k' := by
  cases k <;> cases k' <;> decide

theorem Severity.label_inj {k k' : Severity} : k.label = k'.label ↔ k = k' := by
  cases k <;> cases k' <;> decide

end Labels

section Lists

theorem texts_inj {as bs : List String} : Document.texts as = Document.texts bs ↔ as = bs := by
  have hText : Function.Injective Document.text := by
    intro a b h
    exact Document.text.inj h
  rw [Document.texts, Document.texts, Document.list.injEq, (List.map_injective_iff.mpr hText).eq_iff]

/-- Lists are told apart by the images of their members if the members are. -/
theorem injOn_map {α β : Type} {f : α → β} {P : α → Prop} (h : {a | P a}.InjOn f) :
    {as : List α | ∀ a ∈ as, P a}.InjOn (List.map f) := by
  intro as hAs bs hBs hMap
  induction as generalizing bs with
  | nil => exact (List.map_eq_nil_iff.mp hMap.symm).symm
  | cons a as ih =>
    obtain ⟨b, bs, rfl, hFirst, hRest⟩ := List.map_eq_cons_iff.mp hMap.symm
    obtain ⟨ha, hAs⟩ := List.forall_mem_cons.mp hAs
    obtain ⟨hb, hBs⟩ := List.forall_mem_cons.mp hBs
    rw [h ha hb hFirst.symm, ih hAs hBs hRest.symm]

end Lists

section Findings

open Document

theorem UnusedImport.injOn_document : {u : UnusedImport | u.file.Spelled}.InjOn document := by
  intro u hu v hv h
  cases u
  cases v
  simpa [document, hu.text_inj hv] using h

theorem UnusedFunction.injOn_document : {u : UnusedFunction | u.file.Spelled}.InjOn document := by
  intro u hu v hv h
  cases u
  cases v
  simpa [document, hu.text_inj hv] using h

theorem DeadCode.injOn_document : {c : DeadCode | c.file.Spelled}.InjOn document := by
  intro c hc c' hc' h
  cases c
  cases c'
  simpa [document, hc.text_inj hc', EntityKind.label_inj] using h

theorem ComplexityWarning.injOn_document : {w : ComplexityWarning | w.file.Spelled}.InjOn document := by
  intro w hw w' hw' h
  cases w
  cases w'
  simpa [document, hw.text_inj hw', EntityKind.label_inj] using h

theorem Cluster.injOn_document : {c : Cluster | c.suggested.Spelled}.InjOn document := by
  intro c hc c' hc' h
  cases c
  cases c'
  simpa [document, hc.text_inj hc', texts_inj] using h

def MixedFile.Spelled (m : MixedFile) : Prop := m.file.Spelled ∧ ∀ c ∈ m.clusters, c.suggested.Spelled

theorem MixedFile.injOn_document : {m : MixedFile | m.Spelled}.InjOn document := by
  intro m hm m' hm' h
  have hClusters := (injOn_map Cluster.injOn_document).eq_iff hm.2 hm'.2
  cases m
  cases m'
  simpa [document, hm.1.text_inj hm'.1, hClusters] using h

theorem SplitFamily.injOn_document : {s : SplitFamily | ∀ p ∈ s.files, p.Spelled}.InjOn document := by
  intro s hs s' hs' h
  have hPaths : {p : Path | p.Spelled}.InjOn Path.text := by
    intro p hp q hq hText
    exact (hp.text_inj hq).mp hText
  have hFiles := (injOn_map hPaths).eq_iff hs hs'
  cases s
  cases s'
  simpa [document, texts_inj, hFiles] using h

theorem Cycle.injective_document : Function.Injective Cycle.document := by
  intro c c' h
  cases c
  cases c'
  simpa [document, texts_inj, Severity.label_inj] using h

theorem Diagnostic.injOn_document : {d : Diagnostic | ∀ p ∈ d.file, p.Spelled}.InjOn document := by
  intro d hd d' hd' h
  obtain ⟨file, kind, message⟩ := d
  obtain ⟨file', kind', message'⟩ := d'
  cases file with
  | none =>
    cases file' with
    | none => simpa [document, DiagnosticKind.label_inj] using h
    | some q => simp [document] at h
  | some p =>
    cases file' with
    | none => simp [document] at h
    | some q =>
      have hText := (hd p rfl).text_inj (hd' q rfl)
      simpa [document, hText, DiagnosticKind.label_inj] using h

theorem Summary.injective_document : Function.Injective Summary.document := by
  intro s s' h
  cases s
  cases s'
  simpa [document] using h

end Findings

namespace Report

theorem forall_mem_paths {r : Report} {P : Path → Prop} : (∀ p ∈ r.paths, P p) ↔
    (∀ u ∈ r.unusedImports, P u.file) ∧ (∀ u ∈ r.unusedFunctions, P u.file) ∧
    (∀ u ∈ r.unusedComponents, P u.file) ∧ (∀ c ∈ r.deadCode, P c.file) ∧
    (∀ w ∈ r.complexityWarnings, P w.file) ∧ (∀ m ∈ r.mixedFiles, P m.file ∧ ∀ c ∈ m.clusters, P c.suggested) ∧
    (∀ s ∈ r.splitFamilies, ∀ p ∈ s.files, P p) ∧ ∀ d ∈ r.diagnostics, ∀ p ∈ d.file, P p := by
  have hNamed : (∀ p ∈ r.diagnostics.filterMap Diagnostic.file, P p) ↔ ∀ d ∈ r.diagnostics, ∀ p ∈ d.file, P p := by
    simp only [List.mem_filterMap, Option.mem_def]
    exact ⟨fun h d hd p hp => h p ⟨d, hd, hp⟩, fun h p ⟨d, hd, hp⟩ => h d hd p hp⟩
  simp only [paths, List.map_append, List.forall_mem_append, List.forall_mem_map, List.forall_mem_flatMap,
    List.forall_mem_cons, hNamed, and_assoc]

/-- The reports agree in all but the times, and those are written alike. -/
structure Alike (r t : Report) : Prop where
  generatedAt : r.generatedAt.Alike t.generatedAt
  elsewhere : r = { t with generatedAt := r.generatedAt }

theorem document_eq_iff {r t : Report} (hr : ∀ p ∈ r.paths, p.Spelled) (ht : ∀ p ∈ t.paths, p.Spelled) :
    r.document = t.document ↔
      r.generatedAt.full = t.generatedAt.full ∧ r = { t with generatedAt := r.generatedAt } := by
  obtain ⟨rImports, rFunctions, rComponents, rDead, rWarnings, rMixed, rFamilies, rDiagnostics⟩ :=
    forall_mem_paths.mp hr
  obtain ⟨tImports, tFunctions, tComponents, tDead, tWarnings, tMixed, tFamilies, tDiagnostics⟩ :=
    forall_mem_paths.mp ht
  have hImports := (injOn_map UnusedImport.injOn_document).eq_iff rImports tImports
  have hFunctions := (injOn_map UnusedFunction.injOn_document).eq_iff rFunctions tFunctions
  have hComponents := (injOn_map UnusedFunction.injOn_document).eq_iff rComponents tComponents
  have hDead := (injOn_map DeadCode.injOn_document).eq_iff rDead tDead
  have hWarnings := (injOn_map ComplexityWarning.injOn_document).eq_iff rWarnings tWarnings
  have hMixed := (injOn_map MixedFile.injOn_document).eq_iff rMixed tMixed
  have hFamilies := (injOn_map SplitFamily.injOn_document).eq_iff rFamilies tFamilies
  have hCycles := (List.map_injective_iff.mpr Cycle.injective_document).eq_iff (a := r.cycles) (b := t.cycles)
  have hDiagnostics := (injOn_map Diagnostic.injOn_document).eq_iff rDiagnostics tDiagnostics
  have hSummary := Summary.injective_document.eq_iff (a := r.summary) (b := t.summary)
  cases r
  cases t
  simp only [document, Document.record.injEq, Document.text.injEq, Document.list.injEq, List.cons.injEq,
    Prod.mk.injEq, Report.mk.injEq, true_and, and_true, hImports, hFunctions, hComponents, hDead, hWarnings,
    hMixed, hFamilies, hCycles, hDiagnostics, hSummary]
  exact and_left_comm

/-- The report stands for values that can be: a time, and paths that, being texts, are read from them. -/
structure Proper (r : Report) : Prop where
  generatedAt : r.generatedAt.Bounded
  paths : ∀ p ∈ r.paths, p.isText = true → p.Spelled

end Report

section Snapshots

def FileNode.pathless (n : FileNode) : FileNode := { n with path := default }

def Snapshot.pathless (s : Snapshot) : Snapshot :=
  { s with nodes := s.nodes.map fun n => (n.1, n.2.pathless) }

theorem FileNode.document_eq_iff {n m : FileNode} : n.document = m.document ↔ n.pathless = m.pathless := by
  have hKind := Text.injective_label.eq_iff (a := n.kind) (b := m.kind)
  simp [document, pathless, texts_inj, hKind]

theorem EdgeRecord.injective_document : Function.Injective EdgeRecord.document := by
  intro e e' h
  cases e
  cases e'
  simpa [document, texts_inj] using h

theorem Snapshot.document_eq_iff {s t : Snapshot} : s.document = t.document ↔ s.pathless = t.pathless := by
  have hEdges := (List.map_injective_iff.mpr EdgeRecord.injective_document).eq_iff (a := s.edges) (b := t.edges)
  have hNodes : (s.nodes.map fun n => (n.1, n.2.document)) = (t.nodes.map fun n => (n.1, n.2.document)) ↔
      (s.nodes.map fun n => (n.1, n.2.pathless)) = (t.nodes.map fun n => (n.1, n.2.pathless)) := by
    simp only [← List.forall₂_eq_eq_eq, List.forall₂_map_left_iff, List.forall₂_map_right_iff, Prod.mk.injEq,
      FileNode.document_eq_iff]
  simp [document, pathless, hEdges, hNodes]

end Snapshots

namespace JsonExport

theorem document_eq_iff {d e : ExportData} (hd : d.report.Proper) (he : e.report.Proper)
    (hTexts : ∀ p ∈ d.report.paths, p.isText = true) (hTexts' : ∀ p ∈ e.report.paths, p.isText = true) :
    document d = document e ↔ d.report.Alike e.report ∧ d.graph.pathless = e.graph.pathless := by
  have hReport := Report.document_eq_iff (fun p hp => hd.paths p hp (hTexts p hp))
    (fun p hp => he.paths p hp (hTexts' p hp))
  rw [Timestamp.full_eq_full_iff hd.generatedAt he.generatedAt] at hReport
  rw [← Snapshot.document_eq_iff]
  constructor
  · intro h
    simp only [document, Document.record.injEq, List.cons.injEq, Prod.mk.injEq, true_and, and_true] at h
    obtain ⟨-, -, hSame, hGraph, -⟩ := h
    obtain ⟨hTime, hElse⟩ := hReport.mp hSame
    exact ⟨⟨hTime, hElse⟩, hGraph⟩
  · rintro ⟨⟨hTime, hElse⟩, hGraph⟩
    have hSame := hReport.mpr ⟨hTime, hElse⟩
    have hShort : d.generatedAt = e.generatedAt := by
      rw [ExportData.generatedAt, ExportData.generatedAt, Timestamp.short, Timestamp.short,
        hTime.head_eq hd.generatedAt he.generatedAt]
    have hRoot : d.report.root = e.report.root := by rw [hElse]
    have hCycles : d.report.cycles = e.report.cycles := by rw [hElse]
    rw [document, document, hShort, hRoot, hSame, hGraph, hCycles]

theorem render_eq_some_iff {d : ExportData} {text : String} : render d = some text ↔
    (∀ p ∈ d.report.paths, p.isText = true) ∧ (document d).written ++ "\n" = text := by
  simp [render]

/-- What the text of an export tells: the graph up to the paths of its nodes, and the report up to
the second that a moment was counted from. -/
structure TellsReport (d e : ExportData) : Prop where
  rendered : (render d).isSome ↔ ∀ p ∈ d.report.paths, p.isText = true
  alike : ∀ text, render d = some text →
    (render e = some text ↔ d.report.Alike e.report ∧ d.graph.pathless = e.graph.pathless)
  same : d.report.generatedAt.Valid → e.report.generatedAt.Valid → ∀ text, render d = some text →
    (render e = some text ↔ d.report = e.report ∧ d.graph.pathless = e.graph.pathless)

/-- A fault in a file, and a file that lies at the path. -/
def faulty (path : Path) : ExportData where
  report := { (default : Report) with diagnostics := [⟨some (.ofString "b"), .parseFailure, "a"⟩] }
  graph := ⟨[("b", ⟨path, .plain, [], []⟩)], []⟩

/-- The fault without its file, which the message makes up for. -/
def imitation : ExportData where
  report := { (default : Report) with diagnostics := [⟨none, .parseFailure, "a\",\n\"file\": \"b"⟩] }
  graph := (faulty default).graph

theorem proper_faulty (path : Path) : (faulty path).report.Proper where
  generatedAt := (by decide : (default : Timestamp).Bounded)
  paths := by
    intro p hp _
    obtain rfl : p = .ofString "b" := List.mem_singleton.mp hp
    exact ⟨"b", rfl⟩

theorem proper_imitation : imitation.report.Proper where
  generatedAt := by decide
  paths := List.forall_mem_nil _

/-- Nothing is found at a time. -/
def stamped (t : Timestamp) : ExportData := ⟨{ (default : Report) with generatedAt := t }, ⟨[], []⟩⟩

theorem proper_stamped {t : Timestamp} (h : t.Bounded) : (stamped t).report.Proper :=
  ⟨h, List.forall_mem_nil _⟩

end JsonExport

end ModuleAtlas
