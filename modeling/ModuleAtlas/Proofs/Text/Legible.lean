import ModuleAtlas.Export.Data
import Mathlib.Data.List.Basic
import Mathlib.Tactic.Common

/-!
# Legible writing

A way to write values is legible if a written value can be told from the text in front of which it
stands, whatever follows. Lists of such values stay legible as long as what follows the list is
not taken for another value.
-/

namespace ModuleAtlas.Text

set_option autoImplicit false

variable {α : Type} {write : α → List Char}

/-- The value and what follows can be told from the whole text. -/
def Legible (write : α → List Char) : Prop :=
  ∀ ⦃a b : α⦄ ⦃rest rest' : List Char⦄, write a ++ rest = write b ++ rest' → a = b ∧ rest = rest'

theorem legible_of_read {read : List Char → Option (α × List Char)}
    (h : ∀ a rest, read (write a ++ rest) = some (a, rest)) : Legible write := by
  intro a b rest rest' hText
  have hRead : some (a, rest) = some (b, rest') := by rw [← h a rest, hText, h b rest']
  exact Prod.mk.inj (Option.some.inj hRead)

theorem eq_of_delimited {c : Char} {front front' rest rest' : List Char} (h : c ∉ front) (h' : c ∉ front')
    (hText : front ++ c :: rest = front' ++ c :: rest') : front = front' ∧ rest = rest' := by
  induction front generalizing front' with
  | nil =>
    cases front' with
    | nil => exact ⟨rfl, (List.cons.inj hText).2⟩
    | cons d front' => exact absurd ((List.cons.inj hText).1 ▸ List.mem_cons_self) h'
  | cons d front ih =>
    cases front' with
    | nil => exact absurd ((List.cons.inj hText).1 ▸ List.mem_cons_self) h
    | cons e front' =>
      obtain ⟨rfl, hTail⟩ := List.cons.inj hText
      obtain ⟨rfl, hRest⟩ := ih (fun hMem => h (List.mem_cons_of_mem _ hMem))
        (fun hMem => h' (List.mem_cons_of_mem _ hMem)) hTail
      exact ⟨rfl, hRest⟩

theorem notMem_intercalate {c : Char} {separator : List Char} {texts : List (List Char)} (hSeparator : c ∉ separator)
    (hTexts : ∀ t ∈ texts, c ∉ t) : c ∉ separator.intercalate texts := by
  induction texts with
  | nil => simp [List.intercalate]
  | cons t texts ih =>
    have hRest := ih fun t ht => hTexts t (List.mem_cons_of_mem _ ht)
    have hFirst := hTexts t List.mem_cons_self
    cases texts with
    | nil => simpa [List.intercalate] using hFirst
    | cons u texts =>
      rw [List.intercalate, List.intersperse_cons_cons, List.flatten_cons, List.flatten_cons,
        List.mem_append, List.mem_append]
      exact not_or.mpr ⟨hFirst, not_or.mpr ⟨hSeparator, hRest⟩⟩

/-- No written value begins the text. -/
def Foreign (write : α → List Char) (text : List Char) : Prop := ∀ a rest, text ≠ write a ++ rest

/-- A list of values ends where no further value begins. -/
theorem Legible.eq_of_flatMap (h : Legible write) {as bs : List α} {rest rest' : List Char}
    (hRest : Foreign write rest) (hRest' : Foreign write rest')
    (hText : as.flatMap write ++ rest = bs.flatMap write ++ rest') : as = bs ∧ rest = rest' := by
  induction as generalizing bs with
  | nil =>
    cases bs with
    | nil => exact ⟨rfl, hText⟩
    | cons b bs =>
      rw [List.flatMap_cons, List.append_assoc] at hText
      exact absurd hText (hRest b _)
  | cons a as ih =>
    rw [List.flatMap_cons, List.append_assoc] at hText
    cases bs with
    | nil => exact absurd hText.symm (hRest' a _)
    | cons b bs =>
      rw [List.flatMap_cons, List.append_assoc] at hText
      obtain ⟨rfl, hTail⟩ := h hText
      obtain ⟨rfl, hEnd⟩ := ih hTail
      exact ⟨rfl, hEnd⟩

section Numbers

theorem toString_injective : Function.Injective (toString : Nat → String) := by
  intro m n h
  have hDigits := congrArg String.toList h
  simp only [Nat.toString_eq_repr, Nat.toList_repr] at hDigits
  rw [← Nat.ofDigitChars_ten_toDigits (n := m), hDigits, Nat.ofDigitChars_ten_toDigits]

theorem isDigit_of_mem_toString {c : Char} {n : Nat} (h : c ∈ (toString n).toList) : c.isDigit = true := by
  rw [Nat.toString_eq_repr, Nat.toList_repr] at h
  exact Nat.isDigit_of_mem_toDigits (by omega) (by omega) h

theorem exists_toString_eq_cons (n : Nat) : ∃ c digits, (toString n).toList = c :: digits ∧ c.isDigit = true := by
  cases hDigits : (toString n).toList with
  | nil =>
    have hLength := @Nat.length_toDigits_pos 10 n
    rw [Nat.toString_eq_repr, Nat.toList_repr] at hDigits
    rw [hDigits] at hLength
    cases hLength
  | cons c digits => exact ⟨c, digits, rfl, @isDigit_of_mem_toString c n (hDigits ▸ List.mem_cons_self)⟩

theorem notMem_toString {c : Char} (h : c.isDigit = false) (n : Nat) : c ∉ (toString n).toList := by
  intro hMem
  rw [isDigit_of_mem_toString hMem] at h
  cases h

/-- The text does not go on with a digit. -/
def Undigited (text : List Char) : Prop := ∀ c ∈ text.head?, c.isDigit = false

theorem eq_of_digits {digits digits' rest rest' : List Char} (h : ∀ c ∈ digits, c.isDigit = true)
    (h' : ∀ c ∈ digits', c.isDigit = true) (hRest : Undigited rest) (hRest' : Undigited rest')
    (hText : digits ++ rest = digits' ++ rest') : digits = digits' ∧ rest = rest' := by
  induction digits generalizing digits' with
  | nil =>
    cases digits' with
    | nil => exact ⟨rfl, hText⟩
    | cons d digits' =>
      have hDigit := h' d List.mem_cons_self
      rw [hRest d (by rw [← List.nil_append rest, hText]; rfl)] at hDigit
      cases hDigit
  | cons c digits ih =>
    cases digits' with
    | nil =>
      have hDigit := h c List.mem_cons_self
      rw [hRest' c (by rw [← List.nil_append rest', ← hText]; rfl)] at hDigit
      cases hDigit
    | cons d digits' =>
      obtain ⟨rfl, hTail⟩ := List.cons.inj hText
      obtain ⟨rfl, hEnd⟩ := ih (fun c hc => h c (List.mem_cons_of_mem _ hc))
        (fun c hc => h' c (List.mem_cons_of_mem _ hc)) hTail
      exact ⟨rfl, hEnd⟩

end Numbers

section Values

variable {value : α → String} {c : Char} {back : List Char}

theorem eq_of_value (hInj : Function.Injective value) (hc : ∀ a, c ∉ (value a).toList)
    {a b : α} {rest rest' : List Char}
    (hText : (value a).toList ++ (back ++ rest) = (value b).toList ++ (back ++ rest'))
    (hBack : back.head? = some c) : a = b ∧ rest = rest' := by
  rw [← List.cons_head?_tail hBack] at hText
  obtain ⟨hValue, hRest⟩ := eq_of_delimited (hc a) (hc b) hText
  exact ⟨hInj (String.toList_inj.mp hValue), List.append_cancel_left hRest⟩

def lineText (line : String) : List Char := line.toList ++ ['\n']

theorem legible_line (hInj : Function.Injective value) (hc : ∀ a, c ∉ (value a).toList) (front back : String)
    (hBack : back.toList.head? = some c) : Legible fun a => lineText (front ++ value a ++ back) := by
  intro a b rest rest' hText
  simp only [lineText, String.toList_append, List.append_assoc] at hText
  obtain ⟨hValue, hRest⟩ := eq_of_value hInj hc (List.append_cancel_left hText) hBack
  exact ⟨hValue, List.append_cancel_left hRest⟩

end Values

theorem injective_label : Function.Injective ModuleKind.label := by
  intro k k'
  cases k <;> cases k' <;> decide

theorem toList_unlines (lines : List String) : (unlines lines).toList = lines.flatMap lineText := by
  rw [unlines, String.toList_join, List.flatMap_map]
  simp only [String.toList_append]
  rfl

end ModuleAtlas.Text
