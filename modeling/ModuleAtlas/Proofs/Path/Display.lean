import ModuleAtlas.Proofs.Graph.Built
import ModuleAtlas.Proofs.Path.Normal

/-!
# Paths as they are shown

A path is shown by the texts of the parts that follow the root, or of all of them if it lies
elsewhere. Read as a path again, the text has just these parts, with their texts for names. So two
absolute paths are shown alike exactly if the texts of these parts agree. If all names are texts,
that is so exactly if the paths have the same parts, whatever the root.
-/

namespace ModuleAtlas

set_option autoImplicit false

namespace Text

variable {p : Char → Bool}

theorem split_ne_nil (text : List Char) : split p text ≠ [] := by
  cases text with
  | nil => simp [split]
  | cons c rest =>
    unfold split
    split
    · simp
    · split <;> simp

theorem split_cons_of_free {c : Char} (hc : p c = false) {rest w : List Char} {ws : List (List Char)}
    (h : split p rest = w :: ws) : split p (c :: rest) = (c :: w) :: ws := by
  simp only [split, hc, h, Bool.false_eq_true, if_false]

theorem split_append {w : List Char} (hw : ∀ c ∈ w, p c = false) {rest v : List Char} {vs : List (List Char)}
    (h : split p rest = v :: vs) : split p (w ++ rest) = (w ++ v) :: vs := by
  induction w with
  | nil => exact h
  | cons c w ih =>
    obtain ⟨hc, hw⟩ := List.forall_mem_cons.mp hw
    exact split_cons_of_free hc (ih hw)

/-- Joined words are split where they were joined. -/
theorem split_intercalate {s : Char} (hs : p s = true) {words : List (List Char)} (hNil : words ≠ [])
    (h : ∀ w ∈ words, ∀ c ∈ w, p c = false) : split p ([s].intercalate words) = words := by
  induction words with
  | nil => exact absurd rfl hNil
  | cons w words ih =>
    obtain ⟨hw, hWords⟩ := List.forall_mem_cons.mp h
    cases words with
    | nil =>
      rw [List.intercalate_singleton, ← List.append_nil w, split_append hw rfl]
    | cons v rest =>
      have hRest : split p (s :: [s].intercalate (v :: rest)) = [] :: v :: rest := by
        rw [split, if_pos hs, ih (by simp) hWords]
      rw [List.intercalate_cons_cons, List.append_assoc, List.singleton_append, split_append hw hRest, List.append_nil]

theorem free_of_mem_split {text w : List Char} (h : w ∈ split p text) : ∀ c ∈ w, p c = false := by
  induction text generalizing w with
  | nil =>
    obtain rfl := List.mem_singleton.mp h
    simp
  | cons c rest ih =>
    cases hc : p c with
    | true =>
      rw [split, if_pos hc] at h
      rcases List.mem_cons.mp h with rfl | h
      · simp
      · exact ih h
    | false =>
      obtain ⟨v, vs, hRest⟩ := List.exists_cons_of_ne_nil (split_ne_nil (p := p) rest)
      rw [split_cons_of_free hc hRest] at h
      rcases List.mem_cons.mp h with rfl | h
      · exact List.forall_mem_cons.mpr ⟨hc, ih (hRest ▸ List.mem_cons_self)⟩
      · exact ih (hRest ▸ List.mem_cons_of_mem v h)

end Text

namespace Part

theorem piece_of_ofPiece? {piece : Piece} {part : Part} (h : ofPiece? piece = some part) : part.piece = piece := by
  unfold ofPiece? at h
  split at h
  · cases h
  · split at h
    · rename_i hUp
      rw [← Option.some.inj h, eq_of_beq hUp]
      rfl
    · rw [← Option.some.inj h]
      rfl

/-- The part that is read back from what is shown of a part. -/
def legible : Part → Part
  | name s => name (.ofString s.text)
  | part => part

theorem text_legible (part : Part) : part.legible.text = part.text := by
  cases part with
  | root | here | up => rfl
  | name s => exact Piece.text_ofString s.text

theorem text_root : root.text = "/" := Piece.text_ofString "/"

def IsText (part : Part) : Prop := .ofString part.text = part.piece

instance (part : Part) : Decidable part.IsText := inferInstanceAs (Decidable (_ = _))

theorem IsText.legible_eq {part : Part} (h : part.IsText) : part.legible = part := by
  cases part with
  | root | here | up => rfl
  | name s => exact congrArg name h

/-- A step that can be told from between slashes. -/
structure Readable (step : Part) : Prop where
  solid : ofPiece? step.piece = some step
  slashless : '/' ∉ step.text.toList

theorem Readable.text_ne {step : Part} (h : step.Readable) {s : String} (hs : Piece.replacement ∉ s.toList)
    (hVoid : ofPiece? (.ofString s) = none) : step.text ≠ s := by
  intro hText
  have hSolid := h.solid
  rw [Piece.eq_ofString_of_text hText hs, hVoid] at hSolid
  cases hSolid

theorem Readable.ofPiece?_text {step : Part} (h : step.Readable) :
    ofPiece? (.ofString step.text) = some step.legible := by
  have hEmpty := h.text_ne (s := "") (by decide) (by decide)
  have hDot := h.text_ne (s := ".") (by decide) (by decide)
  cases step with
  | root => exact absurd h.slashless (by simp [text_root])
  | here => exact absurd h.solid (by decide)
  | up => decide
  | name s =>
    have hUp : (name s).text ≠ ".." := by
      intro hUp
      have hSolid := h.solid
      rw [Piece.eq_ofString_of_text hUp (by decide)] at hSolid
      exact absurd hSolid (by simp [ofPiece?])
    simp only [ofPiece?, beq_iff_eq, Piece.ofString_inj, Bool.or_eq_true, hEmpty, hDot, hUp, or_self, if_false]
    rfl

theorem filterMap_text {steps : List Part} (h : ∀ step ∈ steps, step.Readable) :
    ((steps.map text).map Piece.ofString).filterMap ofPiece? = steps.map legible := by
  induction steps with
  | nil => rfl
  | cons step steps ih =>
    obtain ⟨hStep, hSteps⟩ := List.forall_mem_cons.mp h
    rw [List.map_cons, List.map_cons, List.filterMap_cons_some hStep.ofPiece?_text, ih hSteps, List.map_cons]

end Part

namespace Path

open ModuleAtlas.Part

section Reading

theorem parts_of_rooted {p : Path} (h : p.rooted = true) : p.parts = root :: p.steps := by
  rw [parts_eq, start, if_pos h]
  rfl

/-- The steps of a written path lie between its slashes. -/
theorem steps_ofString (text : String) : (ofString text).steps =
    (((Text.split (· == '/') text.toList).map String.ofList).map Piece.ofString).filterMap ofPiece? := by
  have hPieces : ∀ chars : List Char, (piecesOf chars).filterMap ofPiece? =
      (((Text.split (· == '/') chars).map String.ofList).map Piece.ofString).filterMap ofPiece? := by
    intro chars
    cases chars with
    | nil => decide
    | cons c rest =>
      rw [List.map_map]
      rfl
  unfold ofString
  split
  · rename_i rest hText
    rw [hText, Text.split, if_pos (by decide), List.map_cons, List.map_cons, List.filterMap_cons_none (by decide)]
    exact hPieces rest
  · exact hPieces text.toList

theorem rooted_ofString (text : String) : (ofString text).rooted = (text.toList.head? == some '/') := by
  unfold ofString
  split
  · rename_i rest hText
    rw [hText]
    rfl
  · rename_i hOther
    cases hText : text.toList with
    | nil => rfl
    | cons c rest =>
      have hc : c ≠ '/' := fun hc => hOther rest (hc ▸ hText)
      simp [hc]

section Words

variable {words : List String} (hNil : words ≠ []) (hSlash : ∀ w ∈ words, '/' ∉ w.toList)

include hNil hSlash

theorem map_split_intercalate :
    (Text.split (· == '/') ("/".intercalate words).toList).map String.ofList = words := by
  have hSeparator : "/".toList = ['/'] := rfl
  rw [String.toList_intercalate, hSeparator, Text.split_intercalate (by decide) (by simpa using hNil)]
  · simp
  · intro w hw c hc
    obtain ⟨word, hWord, rfl⟩ := List.mem_map.mp hw
    exact beq_eq_false_iff_ne.mpr fun hEq => hSlash word hWord (hEq ▸ hc)

theorem piecesOf_intercalate (hFirst : words.head? ≠ some "") :
    piecesOf ("/".intercalate words).toList = words.map Piece.ofString := by
  have hSplit := map_split_intercalate hNil hSlash
  unfold piecesOf
  split
  · rename_i hEmpty
    rw [List.isEmpty_iff.mp hEmpty] at hSplit
    exact absurd (congrArg List.head? hSplit.symm) hFirst
  · have hPieces := congrArg (List.map Piece.ofString) hSplit
    rwa [List.map_map] at hPieces

/-- Words without slashes are the pieces of the path that they are written as. -/
theorem ofString_intercalate (hFirst : words.head? ≠ some "") (rooted : Bool) :
    ofString ((if rooted then "/" else "") ++ "/".intercalate words) = ⟨rooted, words.map Piece.ofString⟩ := by
  have hPieces := piecesOf_intercalate hNil hSlash hFirst
  cases rooted with
  | true =>
    have hText : ((if true then "/" else "") ++ "/".intercalate words).toList =
        '/' :: ("/".intercalate words).toList := by
      simp
    unfold ofString
    rw [hText]
    exact congrArg (Path.mk true) hPieces
  | false =>
    have hText : (if false then "/" else "") ++ "/".intercalate words = "/".intercalate words := by simp
    rw [hText]
    unfold ofString
    split
    · rename_i rest hRest
      -- a slash in front would come after an empty word
      have hSplit := map_split_intercalate hNil hSlash
      rw [hRest, Text.split, if_pos (by decide), List.map_cons] at hSplit
      exact absurd (congrArg List.head? hSplit.symm) hFirst
    · exact congrArg (Path.mk false) hPieces

end Words

theorem ofString_of_slashless {text : String} (hSlash : '/' ∉ text.toList) (hText : text ≠ "") :
    ofString text = ⟨false, [.ofString text]⟩ := by
  have hWord := ofString_intercalate (List.cons_ne_nil text []) (List.forall_mem_singleton.mpr hSlash)
    (by simpa using hText) false
  simpa using hWord

variable {steps : List Part} (hSteps : ∀ step ∈ steps, step.Readable)

include hSteps

theorem ofString_steps (hNil : steps ≠ []) : ofString ("/".intercalate (steps.map Part.text)) =
    ⟨false, (steps.map Part.text).map Piece.ofString⟩ := by
  have hFirst : (steps.map Part.text).head? ≠ some "" := by
    intro hHead
    obtain ⟨step, hStep, hText⟩ := List.mem_map.mp (List.mem_of_mem_head? hHead)
    exact (hSteps step hStep).text_ne (by decide) (by decide) hText
  have hWords := ofString_intercalate (by simpa using hNil) (List.forall_mem_map.mpr fun step hStep =>
    (hSteps step hStep).slashless) hFirst false
  rwa [if_neg Bool.false_ne_true, String.empty_append] at hWords

theorem parts_ofString_steps :
    (ofString ("/".intercalate (steps.map Part.text))).parts = steps.map legible := by
  cases hNil : steps with
  | nil => decide
  | cons step rest =>
    have hDot : step.text ≠ "." := (hSteps step (hNil ▸ List.mem_cons_self)).text_ne (by decide) (by decide)
    rw [← hNil, ofString_steps hSteps (by simp [hNil]), parts_eq, Path.steps, filterMap_text hSteps]
    simp [start, hNil, hDot]

theorem parts_ofString_root :
    (ofString ("/".intercalate ((root :: steps).map Part.text))).parts = root :: steps.map legible := by
  cases hNil : steps with
  | nil => decide
  | cons step rest =>
    have hRest : steps.map Part.text ≠ [] := by simp [hNil]
    have hText : ("/".intercalate ((root :: steps).map Part.text)).toList =
        '/' :: '/' :: ("/".intercalate (steps.map Part.text)).toList := by
      rw [List.map_cons, String.intercalate_cons_of_ne_nil hRest, text_root]
      simp
    have hRooted : (ofString ("/".intercalate ((root :: steps).map Part.text))).rooted = true := by
      rw [rooted_ofString, hText]
      rfl
    rw [← hNil, parts_of_rooted hRooted, steps_ofString, hText, Text.split, if_pos (by decide), Text.split,
      if_pos (by decide), List.map_cons (f := String.ofList), List.map_cons (f := String.ofList),
      map_split_intercalate hRest (List.forall_mem_map.mpr fun step hStep => (hSteps step hStep).slashless)]
    rw [List.map_cons, List.map_cons, List.filterMap_cons_none (by decide), List.filterMap_cons_none (by decide),
      filterMap_text hSteps]

end Reading

section Absolute

def Slashless (p : Path) : Prop := ∀ step ∈ p.steps, '/' ∉ step.text.toList

instance (p : Path) : Decidable p.Slashless := inferInstanceAs (Decidable (∀ _ ∈ _, _))

/-- A path from the root, with no slash inside a step. -/
def Absolute (p : Path) : Prop := p.rooted = true ∧ p.Slashless

instance (p : Path) : Decidable p.Absolute := inferInstanceAs (Decidable (_ ∧ _))

theorem root_notMem_steps (p : Path) : root ∉ p.steps := by
  intro hRoot
  rcases mem_steps hRoot with hUp | ⟨s, hName, -⟩
  · cases hUp
  · cases hName

theorem root_mem_parts_iff {p : Path} : root ∈ p.parts ↔ p.rooted = true := by
  constructor
  · intro hRoot
    rw [parts_eq, List.mem_append, or_iff_left p.root_notMem_steps] at hRoot
    by_contra hRooted
    rw [start, if_neg hRooted] at hRoot
    split at hRoot
    · cases List.mem_singleton.mp hRoot
    · cases hRoot
  · intro hRooted
    rw [parts_of_rooted hRooted]
    exact List.mem_cons_self

theorem slashless_ofString (text : String) : (ofString text).Slashless := by
  intro step hStep
  rw [steps_ofString, List.map_map] at hStep
  obtain ⟨piece, hPiece, hStep⟩ := List.mem_filterMap.mp hStep
  obtain ⟨chars, hChars, rfl⟩ := List.mem_map.mp hPiece
  rw [Part.text, piece_of_ofPiece? hStep, Function.comp_apply, Piece.text_ofString, String.toList_ofList]
  intro hSlash
  exact absurd (Text.free_of_mem_split hChars '/' hSlash) (by decide)

/-- What is written with a slash in front is absolute, and nothing else. -/
theorem absolute_ofString_iff {text : String} : (ofString text).Absolute ↔ text.toList.head? = some '/' := by
  rw [Absolute, rooted_ofString, beq_iff_eq]
  exact and_iff_left (slashless_ofString text)

theorem Absolute.readable {p : Path} (h : p.Absolute) {step : Part} (hStep : step ∈ p.steps) : step.Readable := by
  refine ⟨?_, h.2 step hStep⟩
  obtain ⟨piece, -, hPiece⟩ := List.mem_filterMap.mp hStep
  rw [piece_of_ofPiece? hPiece, hPiece]

end Absolute

section Shown

theorem stripParts?_eq_some_iff {front parts rest : List Part} :
    stripParts? front parts = some rest ↔ parts = front ++ rest := by
  fun_induction stripParts? front parts with
  | case1 parts => simp [eq_comm]
  | case2 => simp
  | case3 a front b parts hEq ih =>
    rw [ih, eq_of_beq hEq]
    simp
  | case4 a front b parts hNe =>
    have hNe : b ≠ a := fun hEq => hNe (by simp [hEq])
    simp [hNe]

def shown (base p : Path) : List Part := (stripParts? base.parts p.parts).getD p.parts

theorem display_eq (base p : Path) : display base p = "/".intercalate ((shown base p).map Part.text) := rfl

theorem display_congr {base base' p q : Path} (hBase : base.same base' = true) (h : p.same q = true) :
    display base p = display base' q := by
  rw [display, display, same_iff.mp hBase, same_iff.mp h]

theorem shown_cases (base p : Path) : (shown base p = p.parts ∧ ∀ rest, p.parts ≠ base.parts ++ rest) ∨
    p.parts = base.parts ++ shown base p := by
  unfold shown
  cases hStrip : stripParts? base.parts p.parts with
  | none =>
    refine .inl ⟨rfl, fun rest hRest => ?_⟩
    rw [stripParts?_eq_some_iff.mpr hRest] at hStrip
    cases hStrip
  | some rest => exact .inr (stripParts?_eq_some_iff.mp hStrip)

/-- A path from the root is shown by steps of its own, with the root in front or without it. -/
theorem shown_of_rooted (base : Path) {p : Path} (h : p.rooted = true) :
    ∃ steps, (∀ step ∈ steps, step ∈ p.steps) ∧ (shown base p = steps ∨ shown base p = root :: steps) := by
  have hParts := parts_of_rooted h
  rcases shown_cases base p with ⟨hShown, -⟩ | hShown
  · exact ⟨p.steps, fun _ hStep => hStep, .inr (hShown.trans hParts)⟩
  · rw [hParts] at hShown
    rcases List.cons_eq_append_iff.mp hShown with ⟨-, hAll⟩ | ⟨front, -, hSteps⟩
    · exact ⟨p.steps, fun _ hStep => hStep, .inr hAll⟩
    · exact ⟨shown base p, fun step hStep => hSteps ▸ List.mem_append_right front hStep, .inl rfl⟩

theorem parts_ofString_display (base : Path) {p : Path} (h : p.Absolute) :
    (ofString (display base p)).parts = (shown base p).map legible := by
  obtain ⟨steps, hSteps, hShown | hShown⟩ := shown_of_rooted base h.1
  · rw [display_eq, hShown, parts_ofString_steps fun step hStep => h.readable (hSteps step hStep)]
  · rw [display_eq, hShown, parts_ofString_root fun step hStep => h.readable (hSteps step hStep)]
    rfl

theorem ne_append_shown {base p q : Path} (hp : p.rooted = true) (hq : q.rooted = true)
    (hShown : p.parts = base.parts ++ shown base p) (hOther : ∀ rest, q.parts ≠ base.parts ++ rest) :
    shown base p ≠ q.parts := by
  intro hEq
  rw [parts_of_rooted hp, hEq, parts_of_rooted hq] at hShown
  -- the root comes once in a path, so it could only be shown if nothing were taken off
  rcases List.cons_eq_append_iff.mp hShown with ⟨hBase, -⟩ | ⟨front, -, hSteps⟩
  · exact hOther q.parts (by rw [hBase, List.nil_append])
  · exact p.root_notMem_steps (hSteps ▸ List.mem_append_right front List.mem_cons_self)

theorem parts_eq_of_shown {base p q : Path} (hp : p.rooted = true) (hq : q.rooted = true)
    (h : shown base p = shown base q) : p.parts = q.parts := by
  rcases shown_cases base p with ⟨hShownP, hOtherP⟩ | hShownP <;>
    rcases shown_cases base q with ⟨hShownQ, hOtherQ⟩ | hShownQ
  · rw [← hShownP, h, hShownQ]
  · exact absurd (h.symm.trans hShownP) (ne_append_shown hq hp hShownQ hOtherP)
  · exact absurd (h.trans hShownQ) (ne_append_shown hp hq hShownP hOtherQ)
  · rw [hShownP, h, ← hShownQ]

/-- Absolute paths are shown alike exactly if the texts of the parts that are shown agree. -/
theorem display_eq_iff (base : Path) {p q : Path} (hp : p.Absolute) (hq : q.Absolute) :
    display base p = display base q ↔ (shown base p).map Part.text = (shown base q).map Part.text := by
  constructor
  · intro hDisplay
    have hLegible := parts_ofString_display base hp
    rw [hDisplay, parts_ofString_display base hq] at hLegible
    simpa [Function.comp_def, text_legible] using congrArg (List.map Part.text) hLegible.symm
  · intro hTexts
    rw [display_eq, display_eq, hTexts]

/-- A path all of whose names are texts. -/
def Textual (p : Path) : Prop := ∀ step ∈ p.steps, step.IsText

instance (p : Path) : Decidable p.Textual := inferInstanceAs (Decidable (∀ _ ∈ _, _))

theorem map_legible_shown (base : Path) {p : Path} (hp : p.rooted = true) (h : p.Textual) :
    (shown base p).map legible = shown base p := by
  obtain ⟨steps, hSteps, hShown⟩ := shown_of_rooted base hp
  have hMap : steps.map legible = steps :=
    (List.map_congr_left fun step hStep => (h step (hSteps step hStep)).legible_eq).trans (List.map_id' steps)
  rcases hShown with hShown | hShown
  · rw [hShown, hMap]
  · rw [hShown, List.map_cons, hMap]
    rfl

/-- Absolute paths whose names are texts are shown alike exactly if they have the same parts. -/
theorem display_eq_iff_same (base : Path) {p q : Path} (hp : p.Absolute) (hq : q.Absolute) (hpText : p.Textual)
    (hqText : q.Textual) : display base p = display base q ↔ p.same q = true := by
  constructor
  · intro hDisplay
    have hShown : shown base p = shown base q := by
      rw [← map_legible_shown base hp.1 hpText, ← map_legible_shown base hq.1 hqText,
        ← parts_ofString_display base hp, hDisplay, parts_ofString_display base hq]
    exact same_iff.mpr (parts_eq_of_shown hp.1 hq.1 hShown)
  · exact display_congr base.same_self

end Shown

end Path

end ModuleAtlas
