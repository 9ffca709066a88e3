import ModuleAtlas.Path.Piece
import Mathlib.Data.String.Basic
import Mathlib.Tactic.Common

/-!
# Names and what is shown of them

A name that is the bytes of a text is shown as that text. Any other name is shown with a
replacement character, so names without one in what is shown are told by it.
-/

namespace ModuleAtlas.Piece

set_option autoImplicit false

open Std String

/-! ## Reading characters -/

theorem bytes_ofString (s : String) : (ofString s).bytes = s.toList.flatMap utf8EncodeChar := by
  rw [ofString, toUTF8, ← utf8Encode_toList, List.utf8Encode, List.toList_data_toByteArray]

theorem chars_eq_drop (skip : Nat) (bytes : List UInt8) : chars skip bytes = chars 0 (bytes.drop skip) := by
  induction bytes generalizing skip with
  | nil => simp [chars]
  | cons b rest ih =>
    cases skip with
    | zero => rfl
    | succ skip => exact ih skip

theorem firstChar?_encode (c : Char) (rest : List UInt8) : firstChar? (utf8EncodeChar c ++ rest) = some c := by
  have hLength : (utf8EncodeChar c).length ≤ 4 := length_utf8EncodeChar c ▸ c.utf8Size_le_four
  rw [firstChar?, List.take_append, List.take_of_length_le hLength, List.toByteArray_append,
    ByteArray.utf8DecodeChar?_utf8EncodeChar_append]

theorem exists_encode_of_firstChar? {bytes : List UInt8} {c : Char} (h : firstChar? bytes = some c) :
    ∃ rest, bytes = utf8EncodeChar c ++ rest := by
  obtain ⟨rest, hRest⟩ := ByteArray.exists_of_utf8DecodeChar?_eq_some h
  have hTake : bytes.take 4 = utf8EncodeChar c ++ rest.data.toList := by
    rw [← List.toList_data_toByteArray (l := bytes.take 4), hRest, ByteArray.data_append, Array.toList_append,
      List.toList_data_toByteArray]
  refine ⟨rest.data.toList ++ bytes.drop 4, ?_⟩
  rw [← List.append_assoc, ← hTake, List.take_append_drop]

theorem chars_encode (c : Char) (rest : List UInt8) :
    chars 0 (utf8EncodeChar c ++ rest) = c :: chars 0 rest := by
  have hFirst := firstChar?_encode c rest
  have hLength := length_utf8EncodeChar c
  cases hEncoded : utf8EncodeChar c with
  | nil =>
    rw [hEncoded, List.length_nil] at hLength
    exact absurd hLength.symm c.utf8Size_pos.ne'
  | cons b encoded =>
    rw [hEncoded, List.length_cons] at hLength
    rw [hEncoded, List.cons_append] at hFirst
    rw [List.cons_append, chars, hFirst]
    simp only [List.cons.injEq, true_and]
    rw [chars_eq_drop, ← hLength, Nat.add_sub_cancel, List.drop_left]

theorem chars_broken {b : UInt8} {rest : List UInt8} (h : firstChar? (b :: rest) = none) :
    chars 0 (b :: rest) = replacement :: chars 0 (rest.drop (brokenSize (b :: rest) - 1)) := by
  rw [chars, h, ← chars_eq_drop]

theorem chars_flatMap_encode (cs : List Char) : chars 0 (cs.flatMap utf8EncodeChar) = cs := by
  induction cs with
  | nil => rfl
  | cons c cs ih => rw [List.flatMap_cons, chars_encode, ih]

/-- Reading goes on with a character in front, or with a broken sequence. -/
theorem chars_cases (bytes : List UInt8) : bytes = [] ∨
    (∃ c rest, bytes = utf8EncodeChar c ++ rest ∧ chars 0 bytes = c :: chars 0 rest) ∨
    ∃ b rest n, bytes = b :: rest ∧ chars 0 bytes = replacement :: chars 0 (rest.drop n) := by
  cases bytes with
  | nil => exact .inl rfl
  | cons b rest =>
    right
    cases hFirst : firstChar? (b :: rest) with
    | none => exact .inr ⟨b, rest, _, rfl, chars_broken hFirst⟩
    | some c =>
      obtain ⟨after, hAfter⟩ := exists_encode_of_firstChar? hFirst
      exact .inl ⟨c, after, hAfter, by rw [hAfter, chars_encode]⟩

/-! ## Bytes of names -/

theorem bytes_inj {p q : Piece} : p.bytes = q.bytes ↔ p = q := by
  constructor
  · intro h
    cases p
    cases q
    exact congrArg Piece.mk h
  · exact congrArg bytes

theorem bytes_append (p q : Piece) : (p ++ q).bytes = p.bytes ++ q.bytes := rfl

theorem bytes_eq_nil_iff {p : Piece} : p.bytes = [] ↔ p = ofString "" := by
  rw [← bytes_inj]
  rfl

theorem append_assoc (p q r : Piece) : p ++ q ++ r = p ++ (q ++ r) := by
  simp only [← bytes_inj, bytes_append, List.append_assoc]

@[simp]
theorem append_right_inj {p q r : Piece} : p ++ q = p ++ r ↔ q = r := by
  simp only [← bytes_inj, bytes_append, List.append_cancel_left_eq]

theorem append_left_inj {p q r : Piece} : p ++ r = q ++ r ↔ p = q := by
  simp only [← bytes_inj, bytes_append, List.append_cancel_right_eq]

/-- A byte below 128 stands for itself wherever it occurs. -/
theorem encode_of_mem_low {c : Char} {b : UInt8} (hb : b < 128) (h : b ∈ utf8EncodeChar c) :
    utf8EncodeChar c = [b] := by
  have hHigh : ∀ n, 128 ≤ n → n < 256 → b ≠ UInt8.ofNat n := by
    rintro n hLow hSmall rfl
    rw [UInt8.lt_iff_toNat_lt, UInt8.toNat_ofNat_of_lt' hSmall] at hb
    exact absurd hb (Nat.not_lt.mpr hLow)
  simp only [utf8EncodeChar] at h ⊢
  generalize c.val.toNat = v at h ⊢
  split at h
  · rename_i hLow
    rw [if_pos hLow, List.mem_singleton.mp h]
  · -- a longer sequence has only bytes from 128 on
    exfalso
    split at h
    · simp only [List.mem_cons, List.not_mem_nil, or_false] at h
      rcases h with h | h <;> exact hHigh _ (by omega) (by omega) h
    · split at h
      · simp only [List.mem_cons, List.not_mem_nil, or_false] at h
        rcases h with h | h | h <;> exact hHigh _ (by omega) (by omega) h
      · simp only [List.mem_cons, List.not_mem_nil, or_false] at h
        rcases h with h | h | h | h <;> exact hHigh _ (by omega) (by omega) h

theorem dot_mem_bytes_iff {s : String} : 46 ∈ (ofString s).bytes ↔ '.' ∈ s.toList := by
  rw [bytes_ofString, List.mem_flatMap]
  constructor
  · rintro ⟨c, hc, hByte⟩
    have hEncoded : utf8EncodeChar c = utf8EncodeChar '.' := encode_of_mem_low (by decide) hByte
    have hFirst := firstChar?_encode c []
    rw [hEncoded, firstChar?_encode, Option.some.injEq] at hFirst
    rwa [hFirst]
  · exact fun hDot => ⟨'.', hDot, by decide⟩

/-! ## Texts as names -/

@[simp]
theorem text_ofString (s : String) : (ofString s).text = s := by
  rw [text, bytes_ofString, chars_flatMap_encode, String.ofList_toList]

@[simp]
theorem ofString_inj {s t : String} : ofString s = ofString t ↔ s = t :=
  ⟨fun h => by rw [← text_ofString s, h, text_ofString], congrArg ofString⟩

theorem ofString_append (s t : String) : ofString (s ++ t) = ofString s ++ ofString t := by
  rw [← bytes_inj, bytes_append, bytes_ofString, bytes_ofString, bytes_ofString, String.toList_append,
    List.flatMap_append]

theorem text?_eq_some_iff {p : Piece} {s : String} : p.text? = some s ↔ p = ofString s := by
  unfold text?
  split
  · rename_i hText
    rw [Option.some.injEq]
    exact ⟨fun h => by rw [← h, hText], fun h => by rw [h, text_ofString]⟩
  · rename_i hText
    simp only [reduceCtorEq, false_iff]
    rintro rfl
    rw [text_ofString] at hText
    exact hText rfl

theorem isSome_text?_iff {p : Piece} : p.text?.isSome = true ↔ ofString p.text = p := by
  rw [Option.isSome_iff_exists]
  constructor
  · rintro ⟨s, hs⟩
    rw [text?_eq_some_iff.mp hs, text_ofString]
  · exact fun h => ⟨p.text, text?_eq_some_iff.mpr h.symm⟩

/-! ## What is shown -/

theorem chars_eq_nil_iff {bytes : List UInt8} : chars 0 bytes = [] ↔ bytes = [] := by
  constructor
  · intro h
    rcases chars_cases bytes with hNil | ⟨c, rest, -, hChars⟩ | ⟨b, rest, n, -, hChars⟩
    · exact hNil
    · rw [hChars] at h
      cases h
    · rw [hChars] at h
      cases h
  · rintro rfl
    rfl

theorem text_eq_empty_iff {p : Piece} : p.text = "" ↔ p = ofString "" := by
  constructor
  · intro h
    have hChars : chars 0 p.bytes = [] := by simpa [text] using congrArg String.toList h
    exact bytes_eq_nil_iff.mp (chars_eq_nil_iff.mp hChars)
  · rintro rfl
    exact text_ofString ""

theorem flatMap_chars {bytes : List UInt8} (h : replacement ∉ chars 0 bytes) :
    (chars 0 bytes).flatMap utf8EncodeChar = bytes := by
  generalize hLength : bytes.length = n
  induction n using Nat.strongRecOn generalizing bytes with
  | ind n ih =>
    rcases chars_cases bytes with rfl | ⟨c, rest, hBytes, hChars⟩ | ⟨b, rest, n, -, hChars⟩
    · rfl
    · rw [hChars, List.mem_cons, not_or] at h
      have hShort : rest.length < n := by
        have hSize := length_utf8EncodeChar c
        have hPos := c.utf8Size_pos
        rw [hBytes, List.length_append] at hLength
        omega
      rw [hChars, List.flatMap_cons, ih _ hShort h.2 rfl, ← hBytes]
    · rw [hChars] at h
      exact absurd List.mem_cons_self h

/-- A name that is shown without a replacement character is the text it is shown as. -/
theorem ofString_text {p : Piece} (h : replacement ∉ p.text.toList) : ofString p.text = p := by
  have hShown : p.text.toList = chars 0 p.bytes := String.toList_ofList
  rw [← bytes_inj, bytes_ofString, hShown]
  exact flatMap_chars (hShown ▸ h)

theorem eq_ofString_of_text {p : Piece} {s : String} (h : p.text = s) (hs : replacement ∉ s.toList) :
    p = ofString s := by
  subst h
  exact (ofString_text hs).symm

/-! ## The order of names -/

instance : TransOrd Piece where
  eq_swap := OrientedOrd.eq_swap (α := List UInt8)
  isLE_trans := TransOrd.isLE_trans (α := List UInt8)

instance : LawfulEqOrd Piece where
  compare_self := ReflOrd.compare_self (α := List UInt8)
  eq_of_compare h := bytes_inj.mp (LawfulEqOrd.eq_of_compare (α := List UInt8) h)

end ModuleAtlas.Piece
