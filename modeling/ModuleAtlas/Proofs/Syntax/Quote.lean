import ModuleAtlas.Syntax.Lexeme

/-!
# How words and strings start

A string starts with a quote and a word never does. Sources may hold any bytes; a piece that
is no valid text is cut out as the empty one, which a string of a text never is.
-/

namespace ModuleAtlas

set_option autoImplicit false

def Quoted (text : String) : Prop :=
  (Source.ofString text).byte 0 = 34 ∨ (Source.ofString text).byte 0 = 39

instance (text : String) : Decidable (Quoted text) := inferInstanceAs (Decidable (_ ∨ _))

theorem not_quoted_empty : ¬ Quoted "" := by decide

namespace Source

theorem lt_size_of_byte {s : Source} {i : Nat} (h : s.byte i ≠ 0) : i < s.size := by
  apply Nat.lt_of_not_le
  intro hLe
  exact h (dif_neg (Nat.not_lt.mpr hLe))

theorem slice_of_valid {s : Source} {start stop : Nat} (h : (s.bytes.extract start stop).IsValidUTF8) :
    ofString (s.slice start stop) = ⟨s.bytes.extract start stop⟩ := by
  simp [slice, String.fromUTF8?, h, ofString, String.fromUTF8]

theorem byte_extract {s : Source} {start stop : Nat} (h : start < stop) :
    byte ⟨s.bytes.extract start stop⟩ 0 = s.byte start := by
  simp only [byte, ByteArray.size_extract]
  by_cases hStart : start < s.bytes.size
  · rw [dif_pos (by omega), dif_pos hStart]
    exact (ByteArray.getElem_extract _).trans rfl
  · rw [dif_neg (by omega), dif_neg hStart]

theorem not_quoted_slice {s : Source} {start stop : Nat} (h : start < stop)
    (hStart : ¬ (s.byte start = 34 ∨ s.byte start = 39)) : ¬ Quoted (s.slice start stop) := by
  by_cases hValid : (s.bytes.extract start stop).IsValidUTF8
  · rwa [Quoted, slice_of_valid hValid, byte_extract h]
  · have hEmpty : s.slice start stop = "" := by simp [slice, String.fromUTF8?, hValid]
    rw [hEmpty]
    exact not_quoted_empty

theorem isValid_of_quote {text : String} {i : Nat} (hi : i < text.utf8ByteSize)
    (hQuote : (ofString text).byte i = 34 ∨ (ofString text).byte i = 39) :
    String.Pos.Raw.IsValid text ⟨i⟩ ∧ String.Pos.Raw.IsValid text ⟨i + 1⟩ := by
  have hByte : (ofString text).byte i = text.getUTF8Byte ⟨i⟩ hi := dif_pos hi
  rw [hByte] at hQuote
  have hMask : text.getUTF8Byte ⟨i⟩ hi &&& 128 = 0 := by
    rcases hQuote with h | h <;> rw [h] <;> rfl
  have hFirst : (text.getUTF8Byte ⟨i⟩ hi).IsUTF8FirstByte := .inl hMask
  have hValid : String.Pos.Raw.IsValid text ⟨i⟩ :=
    String.Pos.Raw.isValid_iff_isUTF8FirstByte.mpr (.inr ⟨hi, hFirst⟩)
  refine ⟨hValid, ?_⟩
  let p : text.Pos := ⟨⟨i⟩, hValid⟩
  have hp : p ≠ text.endPos := by
    intro h
    have := congrArg (fun q => q.offset.byteIdx) h
    simp [p] at this
    omega
  have hSize : (p.get hp).utf8Size = 1 := by
    rw [← String.Pos.utf8ByteSize_byte, UInt8.utf8ByteSize.eq_1]
    have hb : p.byte hp = text.getUTF8Byte ⟨i⟩ hi := by
      simp [p, String.Pos.byte, String.Slice.Pos.byte, String.Slice.getUTF8Byte]
    exact if_pos (hb ▸ hMask)
  have hNext := (p.next hp).isValid
  have : (p.next hp).offset = ⟨i + 1⟩ := by
    apply String.Pos.Raw.ext
    rw [String.Pos.byteIdx_offset_next, hSize]
  rwa [this] at hNext

theorem lt_size_of_quote {s : Source} {i : Nat} (h : s.byte i = 34 ∨ s.byte i = 39) : i < s.size := by
  apply lt_size_of_byte
  rcases h with h | h <;> rw [h] <;> decide

/-- A slice of a text from quote to quote. -/
theorem quoted_slice {text : String} {i j : Nat} (hij : i ≤ j)
    (hi : (ofString text).byte i = 34 ∨ (ofString text).byte i = 39)
    (hj : (ofString text).byte j = 34 ∨ (ofString text).byte j = 39) :
    Quoted ((ofString text).slice i (j + 1)) := by
  have hStart := (isValid_of_quote (lt_size_of_quote hi) hi).1
  have hStop := (isValid_of_quote (lt_size_of_quote hj) hj).2
  have hLe : (⟨i⟩ : String.Pos.Raw) ≤ ⟨j + 1⟩ := String.Pos.Raw.le_iff.mpr (Nat.le_succ_of_le hij)
  have hValid : ((ofString text).bytes.extract i (j + 1)).IsValidUTF8 :=
    (String.Pos.Raw.isValidUTF8_extract_iff _ _ hLe hStop.le_rawEndPos).mpr (.inr ⟨hStart, hStop⟩)
  rw [Quoted, slice_of_valid hValid, byte_extract (Nat.lt_succ_of_le hij)]
  exact hi

end Source

namespace Lexeme

theorem le_advance {step : Nat → Option Nat} (hStep : ∀ i j, step i = some j → i ≤ j) (fuel i : Nat) :
    i ≤ advance step fuel i := by
  induction fuel generalizing i with
  | zero => exact Nat.le_refl i
  | succ fuel ih =>
    unfold advance
    split
    case h_1 j hj => exact Nat.le_trans (hStep i j hj) (ih j)
    case h_2 => exact Nat.le_refl i

theorem le_of_unicodeEscapeEnd? {s : Source} {i j : Nat} (h : unicodeEscapeEnd? s i = some j) : i ≤ j := by
  unfold unicodeEscapeEnd? at h
  grind

theorem le_of_escapeEnd? {s : Source} {i j : Nat} (h : escapeEnd? s i = some j) : i ≤ j := by
  unfold escapeEnd? at h
  have := @le_of_unicodeEscapeEnd? s i j
  grind

theorem quoted_of_stringEnd? {text : String} {i j : Nat} (h : stringEnd? (.ofString text) i = some j) :
    Quoted ((Source.ofString text).slice i j) := by
  simp only [stringEnd?, advanceIn, Option.ite_none_right_eq_some, Option.some.injEq, Bool.or_eq_true,
    Bool.and_eq_true, beq_iff_eq] at h
  obtain ⟨hQuote, ⟨-, hClosed⟩, rfl⟩ := h
  refine Source.quoted_slice ?_ hQuote (by rwa [hClosed])
  refine Nat.le_trans (Nat.le_succ i) (le_advance ?_ _ _)
  intro m n hStep
  have hEscape := @le_of_escapeEnd? (.ofString text) m n
  grind

theorem advanceIn_of_none {s : Source} {i : Nat} {step : Nat → Option Nat} (h : step i = none) :
    advanceIn s i step = i := by
  unfold advanceIn
  cases s.size + 1 - i with
  | zero => rfl
  | succ fuel => rw [advance, h]

theorem wordEnd_of_quote {s : Source} {i : Nat} (h : s.byte i = 34 ∨ s.byte i = 39) : wordEnd s i = i := by
  have hStep : wordStep s i = none := by
    rcases h with h | h <;> simp [wordStep, h, isDelimiter]
  simp [wordEnd, advanceIn_of_none hStep]

theorem not_quoted_word {s : Source} {i : Nat} (h : i < wordEnd s i) :
    ¬ Quoted (s.slice i (wordEnd s i)) :=
  Source.not_quoted_slice h fun hQuote => Nat.ne_of_gt h (wordEnd_of_quote hQuote)

theorem markupWordEnd_of_quote {s : Source} {i : Nat} (h : s.byte i = 34 ∨ s.byte i = 39) :
    markupWordEnd s i = i := by
  have hPlain : (isLetter (s.byte i) || isDigit (s.byte i) || s.byte i == 95 || s.byte i == 36) = false := by
    rcases h with h | h <;> rw [h] <;> rfl
  have hRun : (advanceIn s i fun j => if isLetter (s.byte j) || isDigit (s.byte j) || s.byte j == 95 ||
      s.byte j == 36 then some (j + 1) else none) = i := by
    apply advanceIn_of_none
    rw [hPlain]
    rfl
  simp only [markupWordEnd, hRun, Nat.lt_irrefl, decide_false, Bool.false_and, Bool.false_eq_true,
    if_false, wordEnd_of_quote h, ite_self]

theorem not_quoted_markupWord {s : Source} {i : Nat} (h : i < markupWordEnd s i) :
    ¬ Quoted (s.slice i (markupWordEnd s i)) :=
  Source.not_quoted_slice h fun hQuote => Nat.ne_of_gt h (markupWordEnd_of_quote hQuote)

end Lexeme

end ModuleAtlas
