import ModuleAtlas.Document.Reader.Text
import ModuleAtlas.Document.Written
import ModuleAtlas.Proofs.Text.Legible

/-!
# Reading documents back

The reader of strings takes back what the writer has written, character by character. From there
every document can be told from its text, whatever follows it but a digit.
-/

namespace ModuleAtlas.Document

open Text Reader

set_option autoImplicit false

/-! ## Strings -/

namespace Reader

variable {α β : Type}

theorem bind_of_ok {r : Reader α} {f : α → Reader β} {text rest : List Char} {a : α}
    (h : r text = .ok (a, rest)) : (r >>= f) text = f a rest := by
  simp [bind, StateT.bind, Except.bind, h]

theorem hexValue?_hexDigit : ∀ n < 16, hexValue? (hexDigit n) = some n := by decide

theorem hex_written {n : Nat} (hn : n < 256) (rest : List Char) :
    hex ('0' :: '0' :: hexDigit (n / 16) :: hexDigit (n % 16) :: rest) = .ok (n, rest) := by
  have hZero : hexValue? '0' = some 0 := rfl
  have hHigh := hexValue?_hexDigit (n / 16) (by omega)
  have hLow := hexValue?_hexDigit (n % 16) (by omega)
  have hValue : ((0 * 16 + 0) * 16 + n / 16) * 16 + n % 16 = n := by omega
  unfold hex
  rw [bind_of_ok rfl]
  simp only [hZero, hHigh, hLow, hValue]
  rfl

theorem unit_written {c : Char} (hc : c.toNat < 32) (rest : List Char) :
    unit ('0' :: '0' :: hexDigit (c.toNat / 16) :: hexDigit (c.toNat % 16) :: rest) = .ok (c, rest) := by
  have hTrailing : isTrailing c.toNat = false := by simp [isTrailing]; omega
  have hLeading : isLeading c.toNat = false := by simp [isLeading]; omega
  rw [unit, bind_of_ok (hex_written (by omega) rest), hTrailing, hLeading, Char.ofNat_toNat]
  rfl

theorem next_cons (c : Char) (rest : List Char) : next (c :: rest) = .ok (c, rest) := rfl

variable {fuel : Nat} {seen rest : List Char}

theorem stringFrom_letter {e c : Char} (h : plainEscape? e = some c) :
    stringFrom unit (fuel + 1) seen ('\\' :: e :: rest) = stringFrom unit fuel (c :: seen) rest := by
  rw [stringFrom, bind_of_ok (next_cons _ _), if_neg (by decide), if_pos (by decide), bind_of_ok (next_cons _ _), h]

theorem stringFrom_unit {c : Char} (hc : c.toNat < 32) :
    stringFrom unit (fuel + 1) seen
        ('\\' :: 'u' :: '0' :: '0' :: hexDigit (c.toNat / 16) :: hexDigit (c.toNat % 16) :: rest) =
      stringFrom unit fuel (c :: seen) rest := by
  have hLetter : plainEscape? 'u' = none := rfl
  rw [stringFrom, bind_of_ok (next_cons _ _), if_neg (by decide), if_pos (by decide), bind_of_ok (next_cons _ _),
    hLetter]
  exact bind_of_ok (unit_written hc rest)

theorem stringFrom_plain {c : Char} (hQuote : c ≠ '"') (hSlash : c ≠ '\\') (hc : 32 ≤ c.toNat) :
    stringFrom unit (fuel + 1) seen (c :: rest) = stringFrom unit fuel (c :: seen) rest := by
  rw [stringFrom, bind_of_ok (next_cons _ _), if_neg (by simpa using hQuote), if_neg (by simpa using hSlash),
    if_neg (by omega)]

end Reader

/-- A character is written as a letter after a backslash, by its number, or as it is. -/
theorem escape_cases (c : Char) : (∃ e, escape c = ['\\', e] ∧ plainEscape? e = some c) ∨
    (c.toNat < 32 ∧ escape c = ['\\', 'u', '0', '0', hexDigit (c.toNat / 16), hexDigit (c.toNat % 16)]) ∨
    (c ≠ '"' ∧ c ≠ '\\' ∧ 32 ≤ c.toNat ∧ escape c = [c]) := by
  have hNumber : ∀ n, c.toNat = n → c = Char.ofNat n := by
    rintro n rfl
    exact c.ofNat_toNat.symm
  unfold escape
  simp only [beq_iff_eq]
  split
  case isTrue h => exact .inl ⟨_, rfl, by rw [h]; rfl⟩
  split
  case isTrue h => exact .inl ⟨_, rfl, by rw [h]; rfl⟩
  split
  case isTrue h => exact .inl ⟨_, rfl, by rw [hNumber _ h]; rfl⟩
  split
  case isTrue h => exact .inl ⟨_, rfl, by rw [hNumber _ h]; rfl⟩
  split
  case isTrue h => exact .inl ⟨_, rfl, by rw [hNumber _ h]; rfl⟩
  split
  case isTrue h => exact .inl ⟨_, rfl, by rw [hNumber _ h]; rfl⟩
  split
  case isTrue h => exact .inl ⟨_, rfl, by rw [hNumber _ h]; rfl⟩
  split
  case isTrue h => exact .inr (.inl ⟨h, rfl⟩)
  case isFalse hQuote hSlash _ _ _ _ _ h => exact .inr (.inr ⟨hQuote, hSlash, by omega, rfl⟩)

theorem stringFrom_escape {fuel : Nat} {seen rest : List Char} (c : Char) :
    stringFrom unit (fuel + 1) seen (escape c ++ rest) = stringFrom unit fuel (c :: seen) rest := by
  rcases escape_cases c with ⟨e, h, hLetter⟩ | ⟨hControl, h⟩ | ⟨hQuote, hSlash, hPlain, h⟩ <;> rw [h]
  · exact stringFrom_letter hLetter
  · exact stringFrom_unit hControl
  · exact stringFrom_plain hQuote hSlash hPlain

theorem stringFrom_written {fuel : Nat} {chars seen rest : List Char} (h : chars.length < fuel) :
    stringFrom unit fuel seen (chars.flatMap escape ++ '"' :: rest) = .ok (chars.reverse ++ seen, rest) := by
  induction chars generalizing fuel seen with
  | nil =>
    obtain ⟨fuel, rfl⟩ := Nat.exists_eq_succ_of_ne_zero (Nat.ne_of_gt h)
    rfl
  | cons c chars ih =>
    obtain ⟨fuel, rfl⟩ := Nat.exists_eq_succ_of_ne_zero (Nat.ne_of_gt (Nat.zero_lt_of_lt h))
    rw [List.flatMap_cons, List.append_assoc, stringFrom_escape, ih (Nat.lt_of_succ_lt_succ h), List.reverse_cons,
      List.append_assoc, List.singleton_append]

theorem length_le_escaped (chars : List Char) : chars.length ≤ (chars.flatMap escape).length := by
  induction chars with
  | nil => exact Nat.le_refl 0
  | cons c chars ih =>
    have hPos : 0 < (escape c).length := by
      rcases escape_cases c with ⟨e, h, -⟩ | ⟨-, h⟩ | ⟨-, -, -, h⟩ <;> simp [h]
    rw [List.flatMap_cons, List.length_append, List.length_cons]
    omega

/-- The reader takes exactly the text that was written. -/
theorem stringBody_written (text : String) (rest : List Char) :
    stringBody (text.toList.flatMap escape ++ '"' :: rest) = .ok (text, rest) := by
  have hFuel : text.toList.length < (text.toList.flatMap escape ++ '"' :: rest).length + 1 := by
    have hLength := length_le_escaped text.toList
    rw [List.length_append]
    omega
  rw [stringBody, bind_of_ok rfl, bind_of_ok (stringFrom_written hFuel), List.append_nil, List.reverse_reverse,
    String.ofList_toList]
  rfl

theorem eq_of_writeText {text text' : String} {rest rest' : List Char}
    (h : writeText text rest = writeText text' rest') : text = text' ∧ rest = rest' := by
  have hBody : text.toList.flatMap escape ++ '"' :: rest = text'.toList.flatMap escape ++ '"' :: rest' :=
    (List.cons.inj h).2
  have hRead := stringBody_written text rest
  rw [hBody, stringBody_written] at hRead
  cases hRead
  exact ⟨rfl, rfl⟩

/-! ## Documents -/

theorem eq_of_newLine {level : Nat} {rest rest' : List Char} (h : newLine level rest = newLine level rest') :
    rest = rest' :=
  List.append_cancel_left (List.cons.inj h).2

theorem undigited_writeItems (level : Nat) (items : List Document) (rest : List Char) :
    Undigited (writeItems level items rest) := by
  cases items <;> simp [writeItems, newLine, Undigited]

theorem undigited_writeFields (level : Nat) (fields : List (String × Document)) (rest : List Char) :
    Undigited (writeFields level fields rest) := by
  cases fields <;> simp [writeFields, newLine, Undigited]

def shape : Document → Nat
  | .text _ => 0
  | .number _ => 1
  | .truth _ => 2
  | .list _ => 3
  | .record _ => 4

/-- The shape of the documents that begin with a character. -/
def shapeOf (c : Char) : Nat :=
  if c.isDigit then 1 else if c == '"' then 0 else if c == '[' then 3 else if c == openingBrace then 4 else 2

theorem shapeOf_head (level : Nat) (d : Document) (rest : List Char) :
    (write level d rest).head?.map shapeOf = some d.shape := by
  cases d with
  | text s => simp [write, writeText, shape, shapeOf]
  | number n =>
    obtain ⟨c, digits, hDigits, hDigit⟩ := exists_toString_eq_cons n
    rw [write, hDigits]
    simp [shape, shapeOf, hDigit]
  | truth b => cases b <;> simp [write, shape, shapeOf, openingBrace]
  | list items => cases items <;> simp [write, shape, shapeOf]
  | record fields => cases fields <;> simp [write, shape, shapeOf, openingBrace]

theorem shape_eq {level : Nat} {d e : Document} {rest rest' : List Char}
    (h : write level d rest = write level e rest') : d.shape = e.shape := by
  have hHead := shapeOf_head level d rest
  rw [h, shapeOf_head] at hHead
  exact (Option.some.inj hHead).symm

theorem eq_of_number {m n : Nat} {rest rest' : List Char} (hRest : Undigited rest) (hRest' : Undigited rest')
    (h : (toString m).toList ++ rest = (toString n).toList ++ rest') : m = n ∧ rest = rest' := by
  obtain ⟨hDigits, hEnd⟩ := eq_of_digits (fun c => isDigit_of_mem_toString) (fun c => isDigit_of_mem_toString)
    hRest hRest' h
  exact ⟨toString_injective (String.toList_inj.mp hDigits), hEnd⟩

theorem eq_of_truth {b b' : Bool} {rest rest' : List Char}
    (h : (if b then "true" else "false").toList ++ rest = (if b' then "true" else "false").toList ++ rest') :
    b = b' ∧ rest = rest' := by
  cases b <;> cases b' <;> simp_all

mutual

theorem eq_of_write (d : Document) {e : Document} {level : Nat} {rest rest' : List Char} (hRest : Undigited rest)
    (hRest' : Undigited rest') (h : write level d rest = write level e rest') : d = e ∧ rest = rest' := by
  have hShape := shape_eq h
  cases d with
  | text s =>
    cases e with
    | text t =>
      obtain ⟨rfl, hEnd⟩ := eq_of_writeText h
      exact ⟨rfl, hEnd⟩
    | _ => cases hShape
  | number m =>
    cases e with
    | number n =>
      obtain ⟨rfl, hEnd⟩ := eq_of_number hRest hRest' h
      exact ⟨rfl, hEnd⟩
    | _ => cases hShape
  | truth b =>
    cases e with
    | truth b' =>
      obtain ⟨rfl, hEnd⟩ := eq_of_truth h
      exact ⟨rfl, hEnd⟩
    | _ => cases hShape
  | list items =>
    cases e with
    | list items' =>
      cases items with
      | nil =>
        cases items' with
        | nil => exact ⟨rfl, (List.cons.inj (List.cons.inj h).2).2⟩
        | cons y ys => simp [write, newLine] at h
      | cons x xs =>
        cases items' with
        | nil => simp [write, newLine] at h
        | cons y ys =>
          have hItems : writeItems level (x :: xs) rest = writeItems level (y :: ys) rest' :=
            congrArg (',' :: ·) (List.cons.inj h).2
          obtain ⟨hSame, hEnd⟩ := eq_of_writeItems (x :: xs) hItems
          exact ⟨by rw [hSame], hEnd⟩
    | _ => cases hShape
  | record fields =>
    cases e with
    | record fields' =>
      cases fields with
      | nil =>
        cases fields' with
        | nil => exact ⟨rfl, (List.cons.inj (List.cons.inj h).2).2⟩
        | cons f fs => simp [write, newLine, closingBrace] at h
      | cons f fs =>
        cases fields' with
        | nil => simp [write, newLine, closingBrace] at h
        | cons f' fs' =>
          have hFields : writeFields level (f :: fs) rest = writeFields level (f' :: fs') rest' :=
            congrArg (',' :: ·) (List.cons.inj h).2
          obtain ⟨hSame, hEnd⟩ := eq_of_writeFields (f :: fs) hFields
          exact ⟨by rw [hSame], hEnd⟩
    | _ => cases hShape

theorem eq_of_writeItems (items : List Document) {items' : List Document} {level : Nat} {rest rest' : List Char}
    (h : writeItems level items rest = writeItems level items' rest') : items = items' ∧ rest = rest' := by
  cases items with
  | nil =>
    cases items' with
    | nil => exact ⟨rfl, (List.cons.inj (eq_of_newLine h)).2⟩
    | cons y ys => simp [writeItems, newLine] at h
  | cons x xs =>
    cases items' with
    | nil => simp [writeItems, newLine] at h
    | cons y ys =>
      rw [writeItems, writeItems] at h
      obtain ⟨rfl, hItems⟩ := eq_of_write x (undigited_writeItems _ _ _) (undigited_writeItems _ _ _)
        (eq_of_newLine (List.cons.inj h).2)
      obtain ⟨rfl, hEnd⟩ := eq_of_writeItems xs hItems
      exact ⟨rfl, hEnd⟩

theorem eq_of_writeFields (fields : List (String × Document)) {fields' : List (String × Document)} {level : Nat}
    {rest rest' : List Char} (h : writeFields level fields rest = writeFields level fields' rest') :
    fields = fields' ∧ rest = rest' := by
  cases fields with
  | nil =>
    cases fields' with
    | nil => exact ⟨rfl, (List.cons.inj (eq_of_newLine h)).2⟩
    | cons f fs => simp [writeFields, newLine] at h
  | cons f fs =>
    obtain ⟨name, x⟩ := f
    cases fields' with
    | nil => simp [writeFields, newLine] at h
    | cons f' fs' =>
      rw [writeFields, writeFields] at h
      obtain ⟨hName, hValue⟩ := eq_of_writeText (eq_of_newLine (List.cons.inj h).2)
      obtain ⟨rfl, hFields⟩ := eq_of_write x (undigited_writeFields _ _ _) (undigited_writeFields _ _ _)
        (List.cons.inj (List.cons.inj hValue).2).2
      obtain ⟨rfl, hEnd⟩ := eq_of_writeFields fs hFields
      exact ⟨by rw [hName], hEnd⟩

end

theorem written_injective : Function.Injective written := by
  intro d e h
  have hEmpty : Undigited [] := by simp [Undigited]
  exact (eq_of_write d hEmpty hEmpty (String.ofList_injective h)).1

end ModuleAtlas.Document
