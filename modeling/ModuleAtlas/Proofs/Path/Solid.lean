import ModuleAtlas.Proofs.Path.Display
import ModuleAtlas.Proofs.Path.Parent
import Mathlib.Data.List.TakeWhile

/-!
# Solid paths

A path is solid if each of its pieces stands for a step, as in every normal path. Solid paths
with the same parts are equal. The extension of a file name is what follows its last dot, if
something stands before that dot, and another extension takes its place.
-/

namespace ModuleAtlas.Path

open ModuleAtlas.Part

set_option autoImplicit false

section Solid

variable {p q : Path}

def Solid (p : Path) : Prop := ∀ piece ∈ p.pieces, isVoid piece = false

theorem isVoid_of_plain {piece : Piece} (h : Plain piece) : isVoid piece = false := by
  simp [isVoid, h.1, h.2.1]

theorem isVoid_append {s t : Piece} (hs : s ≠ "") (ht : t ≠ "") : isVoid (s ++ t) = false := by
  have hs : 0 < s.bytes.length := List.length_pos_iff.mpr (mt Piece.bytes_eq_nil_iff.mp hs)
  have ht : 0 < t.bytes.length := List.length_pos_iff.mpr (mt Piece.bytes_eq_nil_iff.mp ht)
  have hLong : 1 < (s ++ t).bytes.length := by
    rw [Piece.bytes_append, List.length_append]
    omega
  rw [isVoid, Bool.or_eq_false_iff, beq_eq_false_iff_ne, beq_eq_false_iff_ne]
  constructor <;>
  · intro hShort
    rw [hShort] at hLong
    exact absurd hLong (by decide)

theorem solid_iff_of_concat {front : List Piece} {last : Piece} (h : p.pieces = front ++ [last]) :
    p.Solid ↔ (∀ piece ∈ front, isVoid piece = false) ∧ isVoid last = false := by
  rw [Solid, h, List.forall_mem_append, List.forall_mem_singleton]

theorem solid_normalize (p : Path) : p.normalize.Solid := by
  intro piece hPiece
  rcases mem_pieces_normalize hPiece with rfl | hPlain
  · decide
  · exact isVoid_of_plain hPlain

theorem Solid.map_piece_steps (h : p.Solid) : p.steps.map Part.piece = p.pieces := by
  have hPieces : ∀ pieces : List Piece, (∀ piece ∈ pieces, isVoid piece = false) →
      (pieces.filterMap ofPiece?).map Part.piece = pieces := by
    intro pieces
    induction pieces with
    | nil => exact fun _ => rfl
    | cons piece rest ih =>
      intro hSolid
      obtain ⟨hPiece, hRest⟩ := List.forall_mem_cons.mp hSolid
      cases hPart : ofPiece? piece with
      | none =>
        rw [ofPiece?_eq_none_iff.mp hPart] at hPiece
        cases hPiece
      | some part => rw [List.filterMap_cons_some hPart, List.map_cons, piece_of_ofPiece? hPart, ih hRest]
  exact hPieces p.pieces h

theorem Solid.start_eq (h : p.Solid) : p.start = if p.rooted then [root] else [] := by
  unfold start
  split
  · rfl
  · split
    · rename_i hDot
      obtain ⟨rest, hRest⟩ := List.head?_eq_some_iff.mp (eq_of_beq hDot)
      exact absurd (h "." (hRest ▸ List.mem_cons_self)) (by decide)
    · rfl

theorem Solid.eq_of_same (hp : p.Solid) (hq : q.Solid) (hSame : p.same q = true) : p = q := by
  have hParts := same_iff.mp hSame
  have hRooted : p.rooted = q.rooted := by
    rw [Bool.eq_iff_iff, ← root_mem_parts_iff, ← root_mem_parts_iff, hParts]
  rw [parts_eq, parts_eq, hp.start_eq, hq.start_eq, hRooted, List.append_cancel_left_eq] at hParts
  have hPieces : p.pieces = q.pieces := by rw [← hp.map_piece_steps, hParts, hq.map_piece_steps]
  cases p
  cases q
  exact congrArg₂ Path.mk hRooted hPieces

theorem Solid.trimmed_eq (h : p.Solid) : p.trimmed = p := by
  have hTrim : trimPieces p.pieces = p.pieces := by
    rcases List.eq_nil_or_concat p.pieces with hNil | ⟨front, last, hConcat⟩
    · rw [hNil]
      rfl
    · rw [List.concat_eq_append] at hConcat
      have hLast := h last (by simp [hConcat])
      simp [trimPieces, hConcat, hLast]
  rw [trimmed_of_not_beginsHere, hTrim]
  rintro ⟨-, hDot⟩
  exact absurd (h "." (List.mem_of_mem_head? hDot)) (by decide)

/-- Pieces are put after the pieces of a solid path as they are. -/
theorem Solid.join_eq (h : p.Solid) (hq : q.rooted = false) (hNil : q.pieces ≠ []) :
    p.join q = ⟨p.rooted, p.pieces ++ q.pieces⟩ := by
  have hEmpty : q.pieces.isEmpty = false := by simpa using hNil
  simp only [join, hq, hEmpty, Bool.false_eq_true, if_false]
  split
  · rename_i hPieces
    rw [List.isEmpty_iff.mp hPieces, List.nil_append]
  · split
    · rename_i hLast
      exact absurd (h "" (List.mem_of_getLast? (eq_of_beq hLast))) (by decide)
    · rfl

end Solid

section Append

variable {p : Path}

/-- The path with something added to its last name. -/
def append (p : Path) (ending : Piece) : Path :=
  match p.pieces.getLast? with
  | none => ⟨p.rooted, [ending]⟩
  | some last => ⟨p.rooted, p.pieces.dropLast ++ [last ++ ending]⟩

theorem append_of_nil (h : p.pieces = []) (ending : Piece) : p.append ending = ⟨p.rooted, [ending]⟩ := by
  simp [append, h]

theorem append_of_concat {front : List Piece} {last : Piece} (h : p.pieces = front ++ [last]) (ending : Piece) :
    p.append ending = ⟨p.rooted, front ++ [last ++ ending]⟩ := by
  simp [append, h]

theorem append_inj {ending other : Piece} (h : p.append ending = p.append other) : ending = other := by
  rcases List.eq_nil_or_concat' p.pieces with hNil | ⟨front, last, hConcat⟩
  · rw [append_of_nil hNil, append_of_nil hNil] at h
    simpa using h
  · rw [append_of_concat hConcat, append_of_concat hConcat] at h
    simpa using h

theorem Solid.append (h : p.Solid) {ending : Piece} (hEnding : isVoid ending = false) : (p.append ending).Solid := by
  have hNe : ∀ piece, isVoid piece = false → piece ≠ "" := by
    rintro piece hPiece rfl
    exact absurd hPiece (by decide)
  rcases List.eq_nil_or_concat' p.pieces with hNil | ⟨front, last, hConcat⟩
  · rw [append_of_nil hNil]
    exact List.forall_mem_singleton.mpr hEnding
  · rw [append_of_concat hConcat]
    obtain ⟨hFront, hLast⟩ := (solid_iff_of_concat hConcat).mp h
    exact (solid_iff_of_concat rfl).mpr ⟨hFront, isVoid_append (hNe last hLast) (hNe ending hEnding)⟩

end Append

section Legible

variable {p : Path}

/-- The path that is read back from what is shown of a path. -/
def legible (p : Path) : Path := ⟨p.rooted, p.pieces.map fun piece => .ofString piece.text⟩

theorem legible_eq_iff : p.legible = p ↔ p.isText = true := by
  have hPieces : p.legible = p ↔ p.pieces.map (fun piece => .ofString piece.text) = p.pieces.map id := by
    cases p
    simp [legible]
  rw [hPieces, List.map_inj_left, isText, List.all_eq_true]
  simp only [Piece.isSome_text?_iff, id]

theorem isVoid_ofString_text {piece : Piece} (h : isVoid piece = false) : isVoid (.ofString piece.text) = false := by
  rw [isVoid, Bool.or_eq_false_iff, beq_eq_false_iff_ne, beq_eq_false_iff_ne] at h ⊢
  rw [Ne, Ne, Piece.ofString_inj, Piece.ofString_inj]
  exact ⟨fun hText => h.1 (Piece.eq_ofString_of_text hText (by decide)),
    fun hText => h.2 (Piece.eq_ofString_of_text hText (by decide))⟩

theorem Solid.legible (h : p.Solid) : p.legible.Solid :=
  List.forall_mem_map.mpr fun piece hPiece => isVoid_ofString_text (h piece hPiece)

theorem isText_legible (p : Path) : p.legible.isText = true := by
  simp [legible, isText, Piece.isSome_text?_iff]

theorem length_legible (p : Path) : p.legible.pieces.length = p.pieces.length := by
  simp [legible]

theorem Slashless.join {q : Path} (hp : p.Slashless) (hq : q.Slashless) : (p.join q).Slashless := by
  cases hRooted : q.rooted with
  | true => rwa [join_of_rooted p hRooted]
  | false =>
    rw [Slashless, steps_join p hRooted, List.forall_mem_append]
    exact ⟨hp, hq⟩

theorem Slashless.normalize (h : p.Slashless) : p.normalize.Slashless := by
  rw [Slashless, steps_normalize, List.forall_mem_append]
  constructor
  · refine List.forall_mem_map.mpr fun _ _ => ?_
    rw [show up.text = ".." from Piece.text_ofString ".."]
    decide
  · refine List.forall_mem_map.mpr fun s hs => ?_
    exact h (name s) (mem_of_mem_kept (List.mem_reverse.mp hs))

theorem Slashless.parent {dir : Path} (h : p.Slashless) (hDir : p.parent? = some dir) : dir.Slashless := by
  obtain ⟨hNone, -⟩ | ⟨other, hOther, -, hSteps, -⟩ := p.parent?_cases
  · rw [hNone] at hDir
    cases hDir
  · obtain rfl := Option.some.inj (hDir.symm.trans hOther)
    rw [Slashless, hSteps]
    exact fun step hStep => h step (List.dropLast_subset _ hStep)

theorem Solid.slash_notMem (h : p.Solid) (hSlash : p.Slashless) {piece : Piece} (hPiece : piece ∈ p.pieces) :
    '/' ∉ piece.text.toList := by
  rw [← h.map_piece_steps] at hPiece
  obtain ⟨step, hStep, rfl⟩ := List.mem_map.mp hPiece
  exact hSlash step hStep

theorem intercalate_concat_append (words : List String) (last ending : String) :
    "/".intercalate (words ++ [last]) ++ ending = "/".intercalate (words ++ [last ++ ending]) := by
  induction words with
  | nil => simp
  | cons word words ih =>
    rw [List.cons_append, List.cons_append, String.intercalate_cons_of_ne_nil (by simp),
      String.intercalate_cons_of_ne_nil (by simp), String.append_assoc, ih]

/-- A text that is put after a path as it is shown is added to its last name. -/
theorem Solid.ofString_text_append (h : p.Solid) (hSlash : p.Slashless) {ending : String}
    (hEnding : '/' ∉ ending.toList) (hEmpty : ending ≠ "") :
    ofString (p.text ++ ending) = p.legible.append (.ofString ending) := by
  rcases List.eq_nil_or_concat' p.pieces with hNil | ⟨front, last, hConcat⟩
  · have hWord := ofString_intercalate (List.cons_ne_nil ending []) (List.forall_mem_singleton.mpr hEnding)
      (by simpa using hEmpty) p.rooted
    have hText : p.text ++ ending = (if p.rooted then "/" else "") ++ "/".intercalate [ending] := by
      simp [Path.text, hNil]
    rw [hText, hWord, append_of_nil (by simp [Path.legible, hNil])]
    rfl
  · have hText : p.text ++ ending =
        (if p.rooted then "/" else "") ++ "/".intercalate (front.map Piece.text ++ [last.text ++ ending]) := by
      rw [Path.text, hConcat, List.map_append, List.map_singleton, String.append_assoc, intercalate_concat_append]
    have hPieces : ∀ piece ∈ front ++ [last], '/' ∉ piece.text.toList :=
      fun piece hPiece => h.slash_notMem hSlash (hConcat ▸ hPiece)
    rw [List.forall_mem_append, List.forall_mem_singleton] at hPieces
    have hWords : ∀ w ∈ front.map Piece.text ++ [last.text ++ ending], '/' ∉ w.toList := by
      rw [List.forall_mem_append, List.forall_mem_singleton, String.toList_append, List.mem_append, not_or]
      exact ⟨List.forall_mem_map.mpr hPieces.1, hPieces.2, hEnding⟩
    have hFirst : (front.map Piece.text ++ [last.text ++ ending]).head? ≠ some "" := by
      cases front with
      | nil => simp [hEmpty]
      | cons piece front =>
        have hPiece := h piece (by simp [hConcat])
        simp only [List.map_cons, List.cons_append, List.head?_cons, Ne, Option.some.injEq]
        intro hNone
        rw [Piece.text_eq_empty_iff.mp hNone] at hPiece
        exact absurd hPiece (by decide)
    have hLegible : p.legible.pieces = front.map (fun piece => .ofString piece.text) ++ [.ofString last.text] := by
      simp [Path.legible, hConcat]
    rw [hText, ofString_intercalate (by simp) hWords hFirst, append_of_concat hLegible]
    simp [Path.legible, Piece.ofString_append]

theorem isText_legible_append (p : Path) (ending : String) : (p.legible.append (.ofString ending)).isText = true := by
  have hText := isText_legible p
  rcases List.eq_nil_or_concat' p.pieces with hNil | ⟨front, last, hConcat⟩
  · rw [append_of_nil (by simp [legible, hNil])]
    simp [isText, Piece.isSome_text?_iff]
  · have hLegible : p.legible.pieces = front.map (fun piece => .ofString piece.text) ++ [.ofString last.text] := by
      simp [legible, hConcat]
    rw [append_of_concat hLegible, ← Piece.ofString_append]
    simp [isText, Piece.isSome_text?_iff]

theorem legible_append_ne_self {ending : String} (h : ending ≠ "") : p.legible.append (.ofString ending) ≠ p := by
  intro hSelf
  -- what is read back is text, so nothing would have been replaced
  have hLegible := legible_eq_iff.mpr (hSelf ▸ isText_legible_append p ending)
  rw [hLegible] at hSelf
  have hPieces := congrArg Path.pieces hSelf
  rcases List.eq_nil_or_concat' p.pieces with hNil | ⟨front, last, hConcat⟩
  · simp [append_of_nil hNil, hNil] at hPieces
  · rw [append_of_concat hConcat, hConcat, List.append_cancel_left_eq, List.singleton_inj] at hPieces
    have hLength := congrArg (fun s : Piece => s.bytes.length) hPieces
    have hBytes : 0 < (Piece.ofString ending).bytes.length :=
      List.length_pos_iff.mpr (mt Piece.bytes_eq_nil_iff.mp (by simpa using h))
    simp only [Piece.bytes_append, List.length_append] at hLength
    omega

/-- What is added shows whether something was replaced. -/
theorem append_eq_legible_append_iff {ending : Piece} :
    p.append ending = p.legible.append ending ↔ p.isText = true := by
  rw [← legible_eq_iff]
  constructor
  · intro h
    rcases List.eq_nil_or_concat' p.pieces with hNil | ⟨front, last, hConcat⟩
    · cases p
      simp_all [legible]
    · have hLegible : p.legible.pieces = front.map (fun piece => .ofString piece.text) ++ [.ofString last.text] := by
        simp [legible, hConcat]
      have hPieces := congrArg Path.pieces h
      rw [append_of_concat hConcat, append_of_concat hLegible] at hPieces
      obtain ⟨hFront, hLast⟩ := List.append_inj' hPieces rfl
      rw [List.singleton_inj, Piece.append_left_inj] at hLast
      rw [← hFront, ← hLast, ← hConcat] at hLegible
      exact congrArg (Path.mk p.rooted) hLegible
  · intro h
    rw [h]

theorem legible_append_ne_longer {ending piece : Piece} (h : ending ≠ piece) :
    p.legible.append ending ≠ ⟨p.rooted, p.pieces ++ [piece]⟩ := by
  intro hEq
  have hPieces := congrArg Path.pieces hEq
  have hLength := p.length_legible
  rcases List.eq_nil_or_concat' p.legible.pieces with hNil | ⟨front, last, hConcat⟩
  · rw [hNil, List.length_nil] at hLength
    simp [append_of_nil hNil, List.length_eq_zero_iff.mp hLength.symm, h] at hPieces
  · have hLonger := congrArg List.length hPieces
    simp only [append_of_concat hConcat, List.length_append, List.length_singleton, ← hLength, hConcat] at hLonger
    omega

end Legible

section FileName

variable {p : Path} {s stem ext : Piece} {dir : List Piece}

theorem fileName?_eq_some_iff : p.fileName? = some s ↔ ∃ dir, p.trimmed.pieces = dir ++ [s] ∧ Plain s := by
  have hLast : p.fileName? = some s ↔ p.parts.getLast? = some (name s) := by
    unfold fileName?
    split
    · rename_i t hLast
      simp [hLast]
    · rename_i hOther
      simpa using hOther s
  have hStart : p.start.getLast? ≠ some (name s) := by
    unfold start
    split
    · simp
    · split <;> simp
  rw [hLast]
  obtain ⟨hTrim, hSteps, -⟩ | ⟨hTrim, hSteps, -⟩ | ⟨front, last, part, hTrim, hPart, hSteps⟩ := p.trimmed_cases
  · rw [parts_eq, hSteps, hTrim, List.append_nil]
    simp [hStart]
  · rw [parts_eq, hSteps, hTrim, List.append_nil]
    simp only [hStart, false_iff, not_exists, not_and]
    rintro dir hDir ⟨-, hDot, -⟩
    cases dir with
    | nil => exact hDot (List.singleton_inj.mp hDir).symm
    | cons d dir => simp at hDir
  · rw [getLast?_parts_of_steps hSteps, hTrim]
    constructor
    · intro hName
      obtain rfl := Option.some.inj hName
      rw [← piece_of_ofPiece? hPart]
      rcases ofPiece?_eq_some hPart with hUp | ⟨t, hName, hPlain⟩
      · cases hUp
      · exact ⟨front, rfl, by cases hName; exact hPlain⟩
    · rintro ⟨dir, hDir, hPlain⟩
      obtain ⟨-, hs⟩ := List.append_inj' hDir rfl
      rw [List.singleton_inj.mp hs, ofPiece?_of_plain hPlain] at hPart
      rw [hPart]

theorem split_of_last {front ending : List UInt8} (hName : s.bytes = front ++ 46 :: ending) (hEnding : 46 ∉ ending) :
    s.split = if front.isEmpty then (s, none) else (⟨front⟩, some ⟨ending⟩) := by
  have hReverse : s.bytes.reverse = ending.reverse ++ 46 :: front.reverse := by simp [hName]
  have hTake : s.bytes.reverse.takeWhile (· != 46) = ending.reverse := by
    rw [hReverse, List.takeWhile_append_of_pos]
    · simp
    · intro c hc
      exact bne_iff_ne.mpr fun hDot => hEnding (hDot ▸ List.mem_reverse.mp hc)
  have hDrop : s.bytes.reverse.drop (ending.reverse.length + 1) = front.reverse := by
    rw [hReverse, ← List.singleton_append, ← List.append_assoc]
    exact List.drop_left' (by simp)
  simp only [Piece.split, hTake, hDrop, List.reverse_reverse]

/-- A stem, a dot and an extension. -/
theorem bytes_extended (stem ext : Piece) : (stem ++ "." ++ ext).bytes = stem.bytes ++ 46 :: ext.bytes := by
  rw [Piece.bytes_append, Piece.bytes_append, List.append_assoc]
  rfl

/-- A name is cut at its last dot, if something stands before it. -/
theorem split_eq_iff : s.split = (stem, some ext) ↔ s = stem ++ "." ++ ext ∧ stem ≠ "" ∧ 46 ∉ ext.bytes := by
  constructor
  · intro h
    by_cases hDot : 46 ∈ s.bytes
    · obtain ⟨ending, front, hReverse, hEnding⟩ := List.eq_append_cons_of_mem (List.mem_reverse.mpr hDot)
      have hName : s.bytes = front.reverse ++ 46 :: ending.reverse := by
        rw [← List.reverse_inj, hReverse]
        simp
      rw [split_of_last hName (by simpa using hEnding)] at h
      split at h
      · cases h
      · rename_i hFront
        cases h
        refine ⟨?_, ?_, by simpa using hEnding⟩
        · rw [← Piece.bytes_inj, hName, bytes_extended]
        · rw [Ne, ← Piece.bytes_eq_nil_iff]
          simpa using hFront
    · -- without a dot nothing is left for the stem
      have hTake : s.bytes.reverse.takeWhile (· != 46) = s.bytes.reverse := by
        refine List.takeWhile_eq_self_iff.mpr fun c hc => bne_iff_ne.mpr fun hEq => ?_
        exact hDot (hEq ▸ List.mem_reverse.mp hc)
      simp [Piece.split, hTake] at h
  · rintro ⟨rfl, hStem, hExt⟩
    have hFront : stem.bytes.isEmpty = false := by
      rw [List.isEmpty_eq_false_iff]
      exact mt Piece.bytes_eq_nil_iff.mp hStem
    rw [split_of_last (bytes_extended stem ext) hExt, hFront, if_neg Bool.false_ne_true]

theorem plain_of_extension (hStem : stem ≠ "") (hExt : ext ≠ "") : Plain (stem ++ "." ++ ext) := by
  have hLong : 3 ≤ (stem ++ "." ++ ext).bytes.length := by
    have hStem : 0 < stem.bytes.length := List.length_pos_iff.mpr (mt Piece.bytes_eq_nil_iff.mp hStem)
    have hExt : 0 < ext.bytes.length := List.length_pos_iff.mpr (mt Piece.bytes_eq_nil_iff.mp hExt)
    rw [bytes_extended, List.length_append, List.length_cons]
    omega
  refine ⟨?_, ?_, ?_⟩ <;>
  · intro hShort
    rw [hShort] at hLong
    exact absurd hLong (by decide)

theorem extensionText?_eq_some_iff {ext : String} (hExt : ext ≠ "") : p.extensionText? = some ext ↔
    ∃ (dir : List Piece) (stem : Piece), p.trimmed.pieces = dir ++ [stem ++ "." ++ Piece.ofString ext] ∧ stem ≠ "" ∧
      '.' ∉ ext.toList := by
  rw [extensionText?, extension?, Option.bind_eq_some_iff]
  constructor
  · rintro ⟨piece, hPiece, hText⟩
    obtain ⟨s, hName, hExtension⟩ := Option.bind_eq_some_iff.mp hPiece
    obtain rfl := Piece.text?_eq_some_iff.mp hText
    obtain ⟨dir, hPieces, -⟩ := fileName?_eq_some_iff.mp hName
    obtain ⟨hs, hStem, hFree⟩ := split_eq_iff.mp (Prod.ext rfl hExtension)
    exact ⟨dir, s.split.1, by rw [← hs, hPieces], hStem, mt Piece.dot_mem_bytes_iff.mpr hFree⟩
  · rintro ⟨dir, stem, hPieces, hStem, hFree⟩
    have hPlain : Plain (stem ++ "." ++ Piece.ofString ext) := plain_of_extension hStem (by simpa using hExt)
    refine ⟨.ofString ext, Option.bind_eq_some_iff.mpr ⟨_, fileName?_eq_some_iff.mpr ⟨dir, hPieces, hPlain⟩, ?_⟩,
      Piece.text?_eq_some_iff.mpr rfl⟩
    rw [split_eq_iff.mpr ⟨rfl, hStem, mt Piece.dot_mem_bytes_iff.mp hFree⟩]

theorem withExtension_eq (hPieces : p.trimmed.pieces = dir ++ [stem ++ "." ++ ext]) (hStem : stem ≠ "")
    (hExt : ext ≠ "") (hFree : 46 ∉ ext.bytes) (other : String) :
    p.withExtension other = ⟨p.rooted, dir ++ [stem ++ "." ++ other]⟩ := by
  have hName := fileName?_eq_some_iff.mpr ⟨dir, hPieces, plain_of_extension hStem hExt⟩
  rw [withExtension, hName]
  dsimp only
  rw [split_eq_iff.mpr ⟨rfl, hStem, hFree⟩, hPieces, List.dropLast_concat]

end FileName

end ModuleAtlas.Path
