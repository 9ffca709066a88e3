import ModuleAtlas.Syntax.Semicolon
import ModuleAtlas.Proofs.Syntax.Quote

/-!
# Where lexemes end

No lexeme ends before it starts, and a piece of the source is no longer than the distance between
its ends.
-/

namespace ModuleAtlas

set_option autoImplicit false

theorem Source.utf8ByteSize_slice_le (s : Source) (start stop : Nat) :
    (s.slice start stop).utf8ByteSize ≤ stop - start := by
  unfold slice String.fromUTF8?
  split
  · have hSize : (String.fromUTF8 (s.bytes.extract start stop) ‹_›).utf8ByteSize =
        (s.bytes.extract start stop).size := rfl
    rw [Option.getD_some, hSize, ByteArray.size_extract]
    omega
  · exact Nat.zero_le _

namespace Lexeme

variable {s : Source} {i j : Nat}

theorem le_advanceIn {step : Nat → Option Nat} (hStep : ∀ j k, step j = some k → j ≤ k) :
    i ≤ advanceIn s i step :=
  le_advance hStep _ i

/-- A run of steps and what closes it. -/
theorem le_of_closed {c : Prop} [Decidable c] {step : Nat → Option Nat} {width : Nat}
    (hStep : ∀ j k, step j = some k → j ≤ k)
    (h : (if c then some (advanceIn s i step + width) else none) = some j) : i ≤ j := by
  obtain ⟨-, h⟩ := Option.ite_none_right_eq_some.mp h
  rw [← Option.some.inj h]
  exact Nat.le_add_right_of_le (le_advanceIn hStep)

theorem le_skipBlanks (s : Source) (i : Nat) : i ≤ skipBlanks s i :=
  le_advanceIn fun j k h => by grind

theorem le_lineEnd (s : Source) (i : Nat) : i ≤ lineEnd s i :=
  le_advanceIn fun j k h => by grind

theorem le_of_blockEnd? (h : blockEnd? s i = some j) : i ≤ j :=
  le_of_closed (fun j k h => by grind) h

theorem le_of_commentEnd? (h : commentEnd? s i = some j) : i ≤ j := by
  have hLine := le_lineEnd s (i + 2)
  have hBlock := @le_of_blockEnd? s (i + 2) j
  grind [commentEnd?]

theorem le_of_markupCommentEnd? (h : markupCommentEnd? s i = some j) : i ≤ j := by
  obtain ⟨-, h⟩ := Option.ite_none_right_eq_some.mp h
  cases h
  exact le_advanceIn fun j k h => by grind

theorem le_skipTrivia (s : Source) (i : Nat) : i ≤ skipTrivia s i :=
  le_advanceIn fun j k h => by
    have := @le_of_commentEnd? s j k
    grind

theorem le_skipWideTrivia (s : Source) (i : Nat) : i ≤ skipWideTrivia s i :=
  le_advanceIn fun j k h => by
    have := @le_of_commentEnd? s j k
    have := @le_of_markupCommentEnd? s j k
    grind [Option.or_eq_some_iff]

theorem le_digitsEnd (digit : UInt8 → Bool) (s : Source) (i : Nat) : i ≤ digitsEnd digit s i := by
  unfold digitsEnd
  split
  · exact Nat.le_trans (Nat.le_succ i) (le_advanceIn fun j k h => by grind)
  · exact Nat.le_refl i

theorem le_exponentEnd (s : Source) (i : Nat) : i ≤ exponentEnd s i := by
  have := le_digitsEnd isDigit s (i + 1)
  have := le_digitsEnd isDigit s (i + 2)
  grind [exponentEnd]

theorem le_of_basedEnd? (h : basedEnd? s i = some j) : i ≤ j := by
  obtain ⟨-, h⟩ := Option.ite_none_right_eq_some.mp h
  dsimp only at h
  split at h
  case h_1 digit _ =>
    have := le_digitsEnd digit s (i + 2)
    grind
  case h_2 => cases h

theorem le_of_numberEnd? (h : numberEnd? s i = some j) : i ≤ j := by
  unfold numberEnd? at h
  split at h
  case h_1 k hk =>
    cases h
    exact le_of_basedEnd? hk
  case h_2 =>
    have := le_digitsEnd isDigit s
    have := le_exponentEnd s
    grind

theorem le_of_stringEnd? (h : stringEnd? s i = some j) : i ≤ j := by
  obtain ⟨-, h⟩ := Option.ite_none_right_eq_some.mp h
  refine Nat.le_of_succ_le (le_of_closed (fun j k hStep => ?_) h)
  have := @le_of_escapeEnd? s j k
  grind

theorem le_of_regexEnd? (h : regexEnd? s i = some j) : i ≤ j := by
  obtain ⟨-, h⟩ := Option.ite_none_right_eq_some.mp h
  obtain ⟨hBody, h⟩ := Option.ite_none_right_eq_some.mp h
  simp only [Bool.and_eq_true, decide_eq_true_eq] at hBody
  rw [← Option.some.inj h]
  refine Nat.le_trans (Nat.le_of_lt ?_) (le_advanceIn fun j k h => by grind)
  exact Nat.lt_succ_of_lt (Nat.lt_of_succ_lt hBody.1.1)

theorem le_of_referenceEnd? (h : referenceEnd? s i = some j) : i ≤ j := by
  unfold referenceEnd? at h
  grind

theorem le_of_attributeTextEnd? (h : attributeTextEnd? s i = some j) : i ≤ j := by
  obtain ⟨-, h⟩ := Option.ite_none_right_eq_some.mp h
  refine Nat.le_of_succ_le (le_of_closed (fun j k hStep => ?_) h)
  have := @le_of_referenceEnd? s j k
  grind

theorem le_markupTextEnd_go (s : Source) (fuel : Nat) (r : MarkupScan) :
    r.stop ≤ (markupTextEnd?.go s fuel r).stop := by
  fun_induction markupTextEnd?.go s fuel r <;> grind

theorem le_of_markupTextEnd? (h : markupTextEnd? s i = some j) : i ≤ j := by
  obtain ⟨-, h⟩ := Option.ite_none_right_eq_some.mp h
  rw [← Option.some.inj h]
  exact le_markupTextEnd_go s (s.size - i) ⟨i, false, false⟩

end Lexeme

theorem Semicolon.le_of_end? {d : Dialect} {s : Source} {place : Place} {i j : Nat}
    (h : end? d s place i = some j) : i ≤ j := by
  have hGo : ∀ fuel i, end?.go d s place fuel i = some j → i ≤ j := by
    intro fuel
    induction fuel with
    | zero => exact fun _ h => nomatch h
    | succ fuel ih =>
      intro i h
      unfold end?.go at h
      split at h
      · exact Nat.le_of_eq (Option.some.inj h)
      · split at h
        case h_1 k hk =>
          have hComment := Nat.le_trans (Lexeme.le_skipBlanks s i) (Lexeme.le_of_commentEnd? hk)
          exact Nat.le_trans hComment (ih k h)
        case h_2 => cases h
  exact hGo _ i h

end ModuleAtlas
