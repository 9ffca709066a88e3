import ModuleAtlas.Export.Drawing
import ModuleAtlas.Proofs.Text.Legible

/-!
# Reading drawings back

A quoted text ends at its first quote without a backslash before it, whatever the text is, so that
no name can pass for a statement. Two drawings of one time are the same exactly if they show the
same nodes and edges in the same order.
-/

namespace ModuleAtlas.Dot

open Text

set_option autoImplicit false

/-! ## Quoted texts -/

/-- What stands before the first unescaped quote and what follows it. -/
def cutQuote? : List Char → Option (List Char × List Char)
  | [] => none
  | '"' :: rest => some ([], rest)
  | '\\' :: c :: rest => (cutQuote? rest).map fun cut => ('\\' :: c :: cut.1, cut.2)
  | c :: rest => (cutQuote? rest).map fun cut => (c :: cut.1, cut.2)

def unescape : List Char → List Char
  | '\\' :: '\\' :: rest => '\\' :: unescape rest
  | '\\' :: '"' :: rest => '"' :: unescape rest
  | c :: rest => c :: unescape rest
  | [] => []

def readQuoted? : List Char → Option (String × List Char)
  | '"' :: rest => (cutQuote? rest).map fun cut => (String.ofList (unescape cut.1), cut.2)
  | _ => none

def replace (c : Char) (replacement : List Char) (text : List Char) : List Char :=
  text.flatMap fun d => if d == c then replacement else [d]

theorem escape_cases (c : Char) : ((c = '\\' ∨ c = '"') ∧ escape c = ['\\', c]) ∨
    (c ≠ '\\' ∧ c ≠ '"' ∧ escape c = [c]) := by
  unfold escape
  by_cases h : c = '\\' ∨ c = '"'
  · exact .inl ⟨h, if_pos (by simpa using h)⟩
  · obtain ⟨hSlash, hQuote⟩ := not_or.mp h
    exact .inr ⟨hSlash, hQuote, if_neg (by simpa using h)⟩

theorem cutQuote?_cons {c : Char} (hSlash : c ≠ '\\') (hQuote : c ≠ '"') (rest : List Char) :
    cutQuote? (c :: rest) = (cutQuote? rest).map fun cut => (c :: cut.1, cut.2) := by
  rw [cutQuote?.eq_def]
  split <;> simp_all

theorem unescape_cons {c : Char} (hSlash : c ≠ '\\') (rest : List Char) :
    unescape (c :: rest) = c :: unescape rest := by
  rw [unescape.eq_def]
  split <;> simp_all

theorem cutQuote?_escaped (chars rest : List Char) :
    cutQuote? (chars.flatMap escape ++ '"' :: rest) = some (chars.flatMap escape, rest) := by
  induction chars with
  | nil => rfl
  | cons c chars ih =>
    rw [List.flatMap_cons, List.append_assoc]
    rcases escape_cases c with ⟨-, hEscape⟩ | ⟨hSlash, hQuote, hEscape⟩
    · rw [hEscape, List.cons_append, List.singleton_append, cutQuote?, ih]
      rfl
    · rw [hEscape, List.singleton_append, cutQuote?_cons hSlash hQuote, ih]
      rfl

theorem unescape_escaped (chars : List Char) : unescape (chars.flatMap escape) = chars := by
  induction chars with
  | nil => rfl
  | cons c chars ih =>
    rw [List.flatMap_cons]
    rcases escape_cases c with ⟨rfl | rfl, hEscape⟩ | ⟨hSlash, -, hEscape⟩
    · rw [hEscape, List.cons_append, List.singleton_append, unescape, ih]
    · rw [hEscape, List.cons_append, List.singleton_append, unescape, ih]
    · rw [hEscape, List.singleton_append, unescape_cons hSlash, ih]

theorem toList_quote (text : String) : (quote text).toList = '"' :: (text.toList.flatMap escape ++ ['"']) := by
  simp [quote]

theorem readQuoted?_quote (text : String) (rest : List Char) :
    readQuoted? ((quote text).toList ++ rest) = some (text, rest) := by
  rw [toList_quote, List.cons_append, List.append_assoc, List.singleton_append, readQuoted?, cutQuote?_escaped,
    Option.map_some, unescape_escaped, String.ofList_toList]

theorem legible_quote : Legible fun text => (quote text).toList := legible_of_read readQuoted?_quote

/-- Backslashes have to be replaced before quotes, which bring in new ones. -/
theorem quote_eq_replaced (text : String) : (quote text).toList =
    '"' :: (replace '"' ['\\', '"'] (replace '\\' ['\\', '\\'] text.toList) ++ ['"']) := by
  have hEscape : escape = fun c => replace '"' ['\\', '"'] (if c == '\\' then ['\\', '\\'] else [c]) := by
    funext c
    rcases escape_cases c with ⟨rfl | rfl, -⟩ | ⟨hSlash, hQuote, hEscape⟩
    · decide
    · decide
    · simp [hEscape, replace, hSlash, hQuote]
  rw [toList_quote, hEscape, replace, replace, List.flatMap_assoc]
  rfl

/-! ## Drawings -/

/-- Name, kind and border colour of the nodes. -/
def shownNodes (d : ExportData) : List (String × ModuleKind × String) :=
  d.graph.nodes.map fun n => (n.1, n.2.kind, border (d.isCyclic n.1))

/-- Both ends of the edges, and the label of those that have symbols. -/
def shownEdges (d : ExportData) : List (String × String × Option String) :=
  d.graph.edges.map fun e =>
    (e.source, e.target, if e.symbols.isEmpty then none else some (", ".intercalate e.symbols))

def nodeText (n : String × ModuleKind × String) : List Char :=
  lineText ("  " ++ quote n.1 ++ " [kind=" ++ quote n.2.1.label ++ ", style=filled, fillcolor="
    ++ quote (fill n.2.1) ++ ", color=" ++ quote n.2.2 ++ "];")

def labelText : Option String → String
  | none => ""
  | some label => " [label=" ++ quote label ++ "]"

def edgeText (e : String × String × Option String) : List Char :=
  lineText ("  " ++ quote e.1 ++ " -> " ++ quote e.2.1 ++ labelText e.2.2 ++ ";")

def opening (generatedAt : String) : List Char :=
  ["// Generated: " ++ generatedAt, "digraph imports \x7b", "  rankdir=LR;",
    "  node [shape=box, fontname=\"Helvetica\"];"].flatMap lineText

def closing : List Char := ["\x7d"].flatMap lineText

theorem lineText_edgeLine (e : EdgeRecord) : lineText (edgeLine e) =
    edgeText (e.source, e.target, if e.symbols.isEmpty then none else some (", ".intercalate e.symbols)) := by
  unfold edgeLine edgeText
  cases e.symbols.isEmpty <;> rfl

theorem toList_render (d : ExportData) : (render d).toList = opening d.generatedAt ++
    ((shownNodes d).flatMap nodeText ++ ((shownEdges d).flatMap edgeText ++ closing)) := by
  have hEdges : (d.graph.edges.map edgeLine).flatMap lineText = (shownEdges d).flatMap edgeText := by
    rw [List.flatMap_map, shownEdges, List.flatMap_map]
    simp only [lineText_edgeLine]
  have hNodes : (d.graph.nodes.map fun n => nodeLine d n.1 n.2).flatMap lineText =
      (shownNodes d).flatMap nodeText := by
    rw [List.flatMap_map, shownNodes, List.flatMap_map]
    rfl
  rw [render, toList_unlines, List.flatMap_append, List.flatMap_append, List.flatMap_append, hEdges,
    ← hNodes, List.append_assoc, List.append_assoc]
  rfl

theorem legible_nodeText : Legible nodeText := by
  rintro ⟨name, kind, colour⟩ ⟨name', kind', colour'⟩ rest rest' hText
  simp only [nodeText, lineText, String.toList_append, List.append_assoc] at hText
  obtain ⟨rfl, hKinds⟩ := legible_quote (List.append_cancel_left hText)
  obtain ⟨hKind, hFills⟩ := legible_quote (List.append_cancel_left hKinds)
  obtain rfl := injective_label hKind
  obtain ⟨-, hColours⟩ := legible_quote (List.append_cancel_left hFills)
  obtain ⟨rfl, hEnd⟩ := legible_quote (List.append_cancel_left hColours)
  exact ⟨rfl, List.append_cancel_left (List.append_cancel_left hEnd)⟩

theorem legible_labelText : Legible fun label => (labelText label ++ ";").toList := by
  rintro (_ | label) (_ | label') rest rest' hText
  · exact ⟨rfl, List.append_cancel_left hText⟩
  · simp [labelText] at hText
  · simp [labelText] at hText
  · simp only [labelText, String.toList_append, List.append_assoc] at hText
    obtain ⟨rfl, hEnd⟩ := legible_quote (List.append_cancel_left hText)
    exact ⟨rfl, List.append_cancel_left (List.append_cancel_left hEnd)⟩

theorem legible_edgeText : Legible edgeText := by
  rintro ⟨source, target, label⟩ ⟨source', target', label'⟩ rest rest' hText
  simp only [edgeText, lineText, String.toList_append, List.append_assoc] at hText
  obtain ⟨rfl, hTargets⟩ := legible_quote (List.append_cancel_left hText)
  obtain ⟨rfl, hLabels⟩ := legible_quote (List.append_cancel_left hTargets)
  rw [← List.append_assoc, ← List.append_assoc _ _ (_ ++ rest'), ← String.toList_append,
    ← String.toList_append] at hLabels
  obtain ⟨rfl, hEnd⟩ := legible_labelText hLabels
  exact ⟨rfl, List.append_cancel_left hEnd⟩

theorem foreign_nodeText (edges : List (String × String × Option String)) :
    Foreign nodeText (edges.flatMap edgeText ++ closing) := by
  intro n rest hText
  cases edges with
  | nil => simp [nodeText, closing, lineText] at hText
  | cons e edges =>
    rw [List.flatMap_cons] at hText
    simp only [nodeText, edgeText, lineText, String.toList_append, List.append_assoc] at hText
    -- the statements go on differently after the name
    obtain ⟨-, hAfter⟩ := legible_quote (List.append_cancel_left hText)
    simp at hAfter

theorem foreign_edgeText : Foreign edgeText closing := by
  intro e rest hText
  simp [edgeText, closing, lineText] at hText

/-- A quoted text can be read back, whatever follows. -/
structure QuotesReadBack : Prop where
  read : ∀ text rest, readQuoted? ((quote text).toList ++ rest) = some (text, rest)
  /-- The cut is at the end of the quoted text. -/
  cut : ∀ text, ∃ body, (quote text).toList = '"' :: (body ++ ['"']) ∧
    ∀ rest, cutQuote? (body ++ '"' :: rest) = some (body, rest)
  replaced : ∀ text, (quote text).toList =
    '"' :: (replace '"' ['\\', '"'] (replace '\\' ['\\', '\\'] text.toList) ++ ['"'])

theorem quotesReadBack : QuotesReadBack where
  read := readQuoted?_quote
  cut text := ⟨text.toList.flatMap escape, toList_quote text, cutQuote?_escaped text.toList⟩
  replaced := quote_eq_replaced

/-- No text can pass for a statement: a drawing tells which nodes and edges it shows. -/
theorem drawing_tells_shown (d e : ExportData) (hTime : d.generatedAt = e.generatedAt) :
    QuotesReadBack ∧
      (render d = render e ↔ shownNodes d = shownNodes e ∧ shownEdges d = shownEdges e) := by
  refine ⟨quotesReadBack, ?_⟩
  rw [← String.toList_inj, toList_render, toList_render, hTime]
  constructor
  · intro hText
    obtain ⟨hNodes, hRest⟩ := legible_nodeText.eq_of_flatMap (foreign_nodeText _) (foreign_nodeText _)
      (List.append_cancel_left hText)
    obtain ⟨hEdges, -⟩ := legible_edgeText.eq_of_flatMap foreign_edgeText foreign_edgeText hRest
    exact ⟨hNodes, hEdges⟩
  · rintro ⟨hNodes, hEdges⟩
    rw [hNodes, hEdges]

def twoFiles : ExportData where
  report := default
  graph := ⟨[("a\\", ⟨⟨true, ["a\\"]⟩, .plain, [], []⟩), ("b", ⟨⟨true, ["b"]⟩, .plain, [], []⟩)], []⟩

/-- One file with the name of the first of the two, its whole statement and the name of the second. -/
def imitation : ExportData where
  report := default
  graph := ⟨[("a\\\" [kind=\"module\", style=filled, fillcolor=\"#f5f5f5\", color=\"#616161\"];\n  \"b",
    ⟨⟨true, ["a\\"]⟩, .plain, [], []⟩)], []⟩

theorem statement_told_apart :
    imitation.generatedAt = twoFiles.generatedAt ∧ render imitation ≠ render twoFiles := by
  refine ⟨rfl, fun hText => ?_⟩
  obtain ⟨hNodes, -⟩ := (drawing_tells_shown imitation twoFiles rfl).2.mp hText
  exact absurd (congrArg List.length hNodes) (by decide)

end ModuleAtlas.Dot
