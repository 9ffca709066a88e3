import ModuleAtlas.Export.Drawing
import ModuleAtlas.Proofs.Text.Legible

/-!
# Reading GraphML back

Escaped texts hold no markup, so that no name can pass for a part of the document. Two documents
of one time are the same exactly if they show the same nodes and edges in the same order.
-/

namespace ModuleAtlas.GraphMl

open Text

set_option autoImplicit false

/-! ## Escaped texts -/

def entities : List (Char × String) :=
  [('&', "&amp;"), ('<', "&lt;"), ('>', "&gt;"), ('"', "&quot;"), ('\'', "&apos;")]

def unescapeChars : List Char → List Char
  | '&' :: 'a' :: 'm' :: 'p' :: ';' :: rest => '&' :: unescapeChars rest
  | '&' :: 'l' :: 't' :: ';' :: rest => '<' :: unescapeChars rest
  | '&' :: 'g' :: 't' :: ';' :: rest => '>' :: unescapeChars rest
  | '&' :: 'q' :: 'u' :: 'o' :: 't' :: ';' :: rest => '"' :: unescapeChars rest
  | '&' :: 'a' :: 'p' :: 'o' :: 's' :: ';' :: rest => '\'' :: unescapeChars rest
  | c :: rest => c :: unescapeChars rest
  | [] => []

/-- Entities as the characters they stand for. -/
def unescape (text : String) : String := String.ofList (unescapeChars text.toList)

theorem escapeChar_cases (c : Char) : (∃ e, (c, e) ∈ entities ∧ escapeChar c = e.toList) ∨
    (escapeChar c = [c] ∧ c ∉ entities.map Prod.fst) := by
  unfold escapeChar
  simp only [beq_iff_eq]
  split
  case isTrue h => exact .inl ⟨_, by simp [entities, h], rfl⟩
  split
  case isTrue h => exact .inl ⟨_, by simp [entities, h], rfl⟩
  split
  case isTrue h => exact .inl ⟨_, by simp [entities, h], rfl⟩
  split
  case isTrue h => exact .inl ⟨_, by simp [entities, h], rfl⟩
  split
  case isTrue h => exact .inl ⟨_, by simp [entities, h], rfl⟩
  case isFalse => exact .inr ⟨rfl, by simp_all [entities]⟩

theorem unescapeChars_entity {c : Char} {e : String} (h : (c, e) ∈ entities) (rest : List Char) :
    unescapeChars (e.toList ++ rest) = c :: unescapeChars rest := by
  simp only [entities, List.mem_cons, List.not_mem_nil, Prod.mk.injEq, or_false] at h
  rcases h with ⟨rfl, rfl⟩ | ⟨rfl, rfl⟩ | ⟨rfl, rfl⟩ | ⟨rfl, rfl⟩ | ⟨rfl, rfl⟩ <;> rfl

theorem unescapeChars_cons {c : Char} (h : c ≠ '&') (rest : List Char) :
    unescapeChars (c :: rest) = c :: unescapeChars rest := by
  rw [unescapeChars.eq_def]
  split <;> simp_all

theorem unescapeChars_flatMap (chars : List Char) : unescapeChars (chars.flatMap escapeChar) = chars := by
  induction chars with
  | nil => rfl
  | cons c chars ih =>
    rw [List.flatMap_cons]
    rcases escapeChar_cases c with ⟨e, he, hEscape⟩ | ⟨hEscape, hPlain⟩
    · rw [hEscape, unescapeChars_entity he, ih]
    · have hc : c ≠ '&' := fun h => hPlain (h ▸ by decide)
      rw [hEscape, List.singleton_append, unescapeChars_cons hc, ih]

theorem toList_escape (text : String) : (escape text).toList = text.toList.flatMap escapeChar :=
  String.toList_ofList

theorem unescape_escape (text : String) : unescape (escape text) = text := by
  rw [unescape, toList_escape, unescapeChars_flatMap, String.ofList_toList]

theorem escape_injective : Function.Injective escape :=
  Function.LeftInverse.injective unescape_escape

theorem entity_shape : ∀ e ∈ entities, e.2.toList.head? = some '&' ∧
    ∀ c ∈ e.2.toList.tail, c ∉ entities.map Prod.fst := by
  simp [entities]

theorem notMem_escape {c : Char} (hc : c ∈ entities.map Prod.fst) (hAmp : c ≠ '&') (text : String) :
    c ∉ (escape text).toList := by
  rw [toList_escape, List.mem_flatMap]
  rintro ⟨d, -, hd⟩
  rcases escapeChar_cases d with ⟨e, he, hEscape⟩ | ⟨hEscape, hPlain⟩
  · obtain ⟨hHead, hTail⟩ := entity_shape _ he
    rw [hEscape, ← List.cons_head?_tail hHead] at hd
    rcases List.mem_cons.mp hd with h | h
    · exact hAmp h
    · exact hTail c h hc
  · rw [hEscape, List.mem_singleton] at hd
    exact hPlain (hd ▸ hc)

theorem exists_entity_of_ampersand {chars before after : List Char}
    (h : chars.flatMap escapeChar = before ++ '&' :: after) :
    ∃ e ∈ entities, e.2.toList <+: '&' :: after := by
  induction chars generalizing before with
  | nil => simp at h
  | cons c chars ih =>
    rw [List.flatMap_cons] at h
    rcases List.append_eq_append_iff.mp h with ⟨front, -, hRest⟩ | ⟨front, hFront, hAfter⟩
    · exact ih hRest
    cases front with
    | nil => exact @ih [] hAfter.symm
    | cons d front =>
      -- the ampersand stands in what is written for the first character
      obtain ⟨rfl, rfl⟩ := List.cons.inj hAfter
      rcases escapeChar_cases c with ⟨e, he, hEscape⟩ | ⟨hEscape, hPlain⟩
      · obtain ⟨hHead, hTail⟩ := entity_shape _ he
        rw [hEscape] at hFront
        cases before with
        | nil => exact ⟨_, he, hFront ▸ ⟨chars.flatMap escapeChar, rfl⟩⟩
        | cons b before =>
          rw [hFront] at hTail
          exact absurd (by decide) (hTail '&' (by simp))
      · have hMem : '&' ∈ [c] := hEscape ▸ hFront ▸ by simp
        exact absurd (List.mem_singleton.mp hMem ▸ by decide) hPlain

/-- What escaping keeps and what it leaves out. -/
structure EscapesMarkup : Prop where
  injective : Function.Injective escape
  undone : ∀ text, unescape (escape text) = text
  plain : ∀ text, ∀ c ∈ (escape text).toList, c ≠ '<' ∧ c ≠ '>' ∧ c ≠ '"' ∧ c ≠ '\''
  entity : ∀ text before after, (escape text).toList = before ++ '&' :: after →
    ∃ e ∈ entities, e.2.toList <+: '&' :: after

theorem escapesMarkup : EscapesMarkup where
  injective := escape_injective
  undone := unescape_escape
  plain text c hc := by
    refine ⟨?_, ?_, ?_, ?_⟩ <;> rintro rfl <;> exact notMem_escape (by decide) (by decide) text hc
  entity text before after h := exists_entity_of_ampersand (toList_escape text ▸ h)

/-! ## Documents -/

/-- Name, kind, exports and mark of the nodes. -/
def shownNodes (d : ExportData) : List (String × ModuleKind × String × Bool) :=
  d.graph.nodes.map fun n => (n.1, n.2.kind, ", ".intercalate n.2.exports, d.isCyclic n.1)

/-- Both ends and symbols of the edges. -/
def shownEdges (d : ExportData) : List (String × String × String) :=
  d.graph.edges.map fun e => (e.source, e.target, ", ".intercalate e.symbols)

def nodeText (n : String × ModuleKind × String × Bool) : List Char :=
  ["    <node id=\"" ++ escape n.1 ++ "\">", dataLine "kind" n.2.1.label,
    dataLine "exports" (escape n.2.2.1), dataLine "inCycle" (if n.2.2.2 then "true" else "false"),
    "    </node>"].flatMap lineText

def edgeText (e : (String × String × String) × Nat) : List Char :=
  ["    <edge id=\"e" ++ toString e.2 ++ "\" source=\"" ++ escape e.1.1 ++ "\" target=\""
      ++ escape e.1.2.1 ++ "\">",
    dataLine "symbols" (escape e.1.2.2), "    </edge>"].flatMap lineText

def opening (generatedAt : String) : List Char :=
  ["<?xml version=\"1.0\" encoding=\"UTF-8\"?>", "<!-- Generated: " ++ generatedAt ++ " -->",
    "<graphml xmlns=\"http://graphml.graphdrawing.org/xmlns\">",
    keyLine "kind" "node" "string", keyLine "exports" "node" "string",
    keyLine "inCycle" "node" "boolean", keyLine "symbols" "edge" "string",
    "  <graph id=\"imports\" edgedefault=\"directed\">"].flatMap lineText

def closing : List Char := ["  </graph>", "</graphml>"].flatMap lineText

theorem toList_render (d : ExportData) : (render d).toList = opening d.generatedAt ++
    ((shownNodes d).flatMap nodeText ++ ((shownEdges d).zipIdx.flatMap edgeText ++ closing)) := by
  have hEdges : (d.graph.edges.mapIdx edgeLines).flatten.flatMap lineText =
      (shownEdges d).zipIdx.flatMap edgeText := by
    rw [List.mapIdx_eq_zipIdx_map, ← List.flatMap_def, List.flatMap_assoc, shownEdges, List.zipIdx_map,
      List.flatMap_map]
    rfl
  have hNodes : (d.graph.nodes.flatMap fun n => nodeLines d n.1 n.2).flatMap lineText =
      (shownNodes d).flatMap nodeText := by
    rw [List.flatMap_assoc, shownNodes, List.flatMap_map]
    rfl
  rw [render, toList_unlines, List.flatMap_append, List.flatMap_append, List.flatMap_append, hEdges,
    ← hNodes, List.append_assoc, List.append_assoc]
  rfl

theorem legible_dataLine {α : Type} {value : α → String} (hInj : Function.Injective value)
    (hPlain : ∀ a, '<' ∉ (value a).toList) (key : String) : Legible fun a => lineText (dataLine key (value a)) :=
  legible_line hInj hPlain ("      <data key=\"" ++ key ++ "\">") "</data>" rfl

theorem legible_nodeText : Legible nodeText := by
  rintro ⟨name, kind, exports, cyclic⟩ ⟨name', kind', exports', cyclic'⟩ rest rest' hText
  have hMark : Function.Injective fun cyclic : Bool => if cyclic then "true" else "false" := by
    intro b b'
    cases b <;> cases b' <;> decide
  have hQuote : ∀ text, '"' ∉ (escape text).toList := notMem_escape (by decide) (by decide)
  have hPlain : ∀ text, '<' ∉ (escape text).toList := notMem_escape (by decide) (by decide)
  simp only [nodeText, List.flatMap_cons, List.flatMap_nil, List.append_nil, List.append_assoc] at hText
  obtain ⟨rfl, hKinds⟩ := legible_line escape_injective hQuote "    <node id=\"" "\">" rfl hText
  obtain ⟨rfl, hExports⟩ := legible_dataLine injective_label (by rintro (_ | _ | _) <;> decide) "kind" hKinds
  obtain ⟨rfl, hMarks⟩ := legible_dataLine escape_injective hPlain "exports" hExports
  obtain ⟨rfl, hEnd⟩ := legible_dataLine hMark (by decide) "inCycle" hMarks
  exact ⟨rfl, List.append_cancel_left hEnd⟩

theorem eq_of_edgeLine {i j : Nat} {source source' target target' : String} {rest rest' : List Char}
    (hText : lineText ("    <edge id=\"e" ++ toString i ++ "\" source=\"" ++ escape source ++ "\" target=\""
        ++ escape target ++ "\">") ++ rest =
      lineText ("    <edge id=\"e" ++ toString j ++ "\" source=\"" ++ escape source' ++ "\" target=\""
        ++ escape target' ++ "\">") ++ rest') :
    i = j ∧ source = source' ∧ target = target' ∧ rest = rest' := by
  have hQuote : ∀ text, '"' ∉ (escape text).toList := notMem_escape (by decide) (by decide)
  have hDigits : ∀ n : Nat, '"' ∉ (toString n).toList := notMem_toString rfl
  simp only [lineText, String.toList_append, List.append_assoc] at hText
  obtain ⟨hNumber, hSources⟩ := eq_of_value toString_injective hDigits (List.append_cancel_left hText) rfl
  obtain ⟨hSource, hTargets⟩ := eq_of_value escape_injective hQuote hSources rfl
  obtain ⟨hTarget, hEnd⟩ := eq_of_value escape_injective hQuote hTargets rfl
  exact ⟨hNumber, hSource, hTarget, List.append_cancel_left hEnd⟩

theorem legible_edgeText : Legible edgeText := by
  rintro ⟨⟨source, target, symbols⟩, i⟩ ⟨⟨source', target', symbols'⟩, j⟩ rest rest' hText
  have hPlain : ∀ text, '<' ∉ (escape text).toList := notMem_escape (by decide) (by decide)
  simp only [edgeText, List.flatMap_cons, List.flatMap_nil, List.append_nil, List.append_assoc] at hText
  obtain ⟨rfl, rfl, rfl, hSymbols⟩ := eq_of_edgeLine hText
  obtain ⟨rfl, hEnd⟩ := legible_dataLine escape_injective hPlain "symbols" hSymbols
  exact ⟨rfl, List.append_cancel_left hEnd⟩

theorem foreign_nodeText (edges : List ((String × String × String) × Nat)) :
    Foreign nodeText (edges.flatMap edgeText ++ closing) := by
  intro n rest hText
  cases edges with
  | nil => simp [nodeText, closing, lineText] at hText
  | cons e edges => simp [nodeText, edgeText, lineText] at hText

theorem foreign_edgeText : Foreign edgeText closing := by
  intro e rest hText
  simp [edgeText, closing, lineText] at hText

/-- No text can pass for markup: a document tells which nodes and edges it shows. -/
theorem document_tells_shown (d e : ExportData) (hTime : d.generatedAt = e.generatedAt) :
    EscapesMarkup ∧
      (render d = render e ↔ shownNodes d = shownNodes e ∧ shownEdges d = shownEdges e) := by
  refine ⟨escapesMarkup, ?_⟩
  rw [← String.toList_inj, toList_render, toList_render, hTime]
  constructor
  · intro hText
    obtain ⟨hNodes, hRest⟩ := legible_nodeText.eq_of_flatMap (foreign_nodeText _) (foreign_nodeText _)
      (List.append_cancel_left hText)
    obtain ⟨hEdges, -⟩ := legible_edgeText.eq_of_flatMap foreign_edgeText foreign_edgeText hRest
    have hUnnumbered := congrArg (List.map Prod.fst) hEdges
    rw [List.zipIdx_map_fst, List.zipIdx_map_fst] at hUnnumbered
    exact ⟨hNodes, hUnnumbered⟩
  · rintro ⟨hNodes, hEdges⟩
    rw [hNodes, hEdges]

def twoFiles : ExportData where
  report := default
  graph := ⟨[("a", ⟨⟨true, ["a"]⟩, .plain, [], []⟩), ("b", ⟨⟨true, ["b"]⟩, .plain, [], []⟩)], []⟩

/-- One file with the name of the first of the two, all of the markup up to the name of the second,
and that name. -/
def imitation : ExportData where
  report := default
  graph := ⟨[("a\">\n      <data key=\"kind\">module</data>\n      <data key=\"exports\"></data>\n" ++
    "      <data key=\"inCycle\">false</data>\n    </node>\n    <node id=\"b", ⟨⟨true, ["a"]⟩, .plain, [], []⟩)], []⟩

theorem markup_told_apart :
    imitation.generatedAt = twoFiles.generatedAt ∧ render imitation ≠ render twoFiles := by
  refine ⟨rfl, fun hText => ?_⟩
  obtain ⟨hNodes, -⟩ := (document_tells_shown imitation twoFiles rfl).2.mp hText
  exact absurd (congrArg List.length hNodes) (by decide)

end ModuleAtlas.GraphMl
