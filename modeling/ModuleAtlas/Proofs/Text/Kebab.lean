import ModuleAtlas.Proofs.Path.Display
import ModuleAtlas.Proofs.Text.Legible
import ModuleAtlas.Text.Kebab

/-!
# Names in hyphenated words

The words of a name hold its letters and numerals in order, and no word is empty. In lower case
they have no hyphen, so that the words can be told from the hyphenated name: two names have the
same one exactly if their words differ by letter case alone.
-/

namespace ModuleAtlas

set_option autoImplicit false

namespace Letter

/-- What the first code points of the runs of a lower-case table are mapped to. -/
def bases : List Nat → List Nat
  | _ :: _ :: _ :: base :: rest => base :: bases rest
  | _ => []

theorem getD_mem_bases (table : List Nat) (k : Nat) (h : 4 * k + 3 < table.length) :
    table.getD (4 * k + 3) 0 ∈ bases table := by
  fun_induction bases table generalizing k with
  | case1 lo hi step base rest ih =>
    cases k with
    | zero => exact List.mem_cons_self
    | succ k =>
      have hRest : 4 * k + 3 < rest.length := by
        simp only [List.length_cons] at h
        omega
      exact List.mem_cons_of_mem base (ih k hRest)
  | case2 table hShort =>
    rcases table with _ | ⟨lo, _ | ⟨hi, _ | ⟨step, _ | ⟨base, rest⟩⟩⟩⟩
    case cons.cons.cons.cons => exact (hShort lo hi step base rest rfl).elim
    all_goals
      simp only [List.length_cons, List.length_nil] at h
      omega

theorem le_bases_lowered : ∀ base ∈ bases LetterTable.lowered.toList, 48 ≤ base := by decide +kernel

theorem le_loweredFrom {c : Nat} (hc : 48 ≤ c) (fuel k : Nat) :
    48 ≤ loweredFrom LetterTable.lowered c fuel (4 * k) := by
  induction fuel generalizing k with
  | zero => exact hc
  | succ fuel ih =>
    rw [loweredFrom]
    refine iteInduction (motive := (48 ≤ ·)) (fun hSize => ?_) fun _ => hc
    refine iteInduction (motive := (48 ≤ ·)) (fun _ => ?_) fun _ => ih (k + 1)
    have hBase := le_bases_lowered _ (getD_mem_bases _ k (by rwa [Array.length_toList]))
    rw [List.getD_eq_getElem?_getD, Array.getElem?_toList, ← Array.getD_eq_getD_getElem?] at hBase
    exact Nat.le_add_right_of_le hBase

theorem le_toLower {c : Char} (h : c.isAlphanum = true) : 48 ≤ c.toLower.toNat := by
  have hc : 48 ≤ c.toNat := by
    rcases Bool.or_eq_true_iff.mp h with hAlpha | hDigit
    · rcases Bool.or_eq_true_iff.mp hAlpha with hUpper | hLower
      · have hFirst : 65 ≤ c.toNat := (of_decide_eq_true hUpper).1
        omega
      · have hFirst : 97 ≤ c.toNat := of_decide_eq_true (Bool.and_eq_true_iff.mp hLower).1
        omega
    · exact of_decide_eq_true (Bool.and_eq_true_iff.mp hDigit).1
  by_cases hUpper : c.val ≥ 'A'.val ∧ c.val ≤ 'Z'.val
  · rw [show c.toLower = ⟨c.val + 32, _⟩ from dif_pos hUpper]
    have hLast : c.toNat ≤ 90 := hUpper.2
    have hShift : (c.val + 32).toNat = (c.toNat + 32) % 4294967296 := UInt32.toNat_add c.val 32
    change 48 ≤ (c.val + 32).toNat
    omega
  · rwa [show c.toLower = c from dif_neg hUpper]

/-- A letter or numeral in lower case is no mark that a name could be cut at. -/
theorem le_lower {c d : Char} (hc : isAlphanumeric c = true) (hd : d ∈ lower c) : d.toNat = 0 ∨ 48 ≤ d.toNat := by
  have hOfNat : ∀ n, 48 ≤ n → (Char.ofNat n).toNat = 0 ∨ 48 ≤ (Char.ofNat n).toNat := by
    intro n hn
    by_cases hValid : n.isValidChar
    · rw [Char.ofNat, dif_pos hValid]
      exact .inr hn
    · rw [Char.ofNat, dif_neg hValid]
      exact .inl rfl
  unfold isAlphanumeric at hc
  unfold lower at hd
  split at hd
  · rename_i hAscii
    rw [if_pos hAscii] at hc
    rw [List.mem_singleton.mp hd]
    exact .inr (le_toLower hc)
  · rename_i hWide
    split at hd
    · rcases List.mem_cons.mp hd with rfl | hd
      · exact .inr (by decide)
      · rw [List.mem_singleton.mp hd]
        exact .inr (by decide)
    · rw [List.mem_singleton.mp hd]
      exact hOfNat _ (le_loweredFrom (by omega) _ 0)

end Letter

namespace Kebab

variable {name : String} {mode : Mode} {word cs : List Char} {w : List Char}

section Words

theorem flatten_pieceWords (mode : Mode) (word cs : List Char) :
    (pieceWords mode word cs).flatten = word.reverse ++ cs := by
  fun_induction pieceWords mode word cs with
  | case1 mode word h => simp [List.isEmpty_iff.mp h]
  | case2 mode word h => simp
  | case3 mode word c => simp
  | case4 mode word c next rest h ih => simp [ih]
  | case5 mode word c next rest h h' ih => simp [ih]
  | case6 mode word c next rest h h' ih => simp [ih]

/-- A word that has begun with a capital is not empty. -/
theorem ne_nil_of_mem_pieceWords (hMode : mode = .upper → word ≠ []) (hw : w ∈ pieceWords mode word cs) : w ≠ [] := by
  fun_induction pieceWords mode word cs with
  | case1 mode word h => cases hw
  | case2 mode word h => 
    rw [List.mem_singleton.mp hw]
    simpa using h
  | case3 mode word c => simp [List.mem_singleton.mp hw]
  | case4 mode word c next rest h ih =>
    rcases List.mem_cons.mp hw with rfl | hw
    · simp
    · exact ih (by simp) hw
  | case5 mode word c next rest h h' ih =>
    rcases List.mem_cons.mp hw with rfl | hw
    · rw [Bool.and_assoc, Bool.and_eq_true, beq_iff_eq] at h'
      exact List.reverse_ne_nil_iff.mpr (hMode h'.1)
    · exact ih (by simp) hw
  | case6 mode word c next rest h h' ih => exact ih (fun _ => List.cons_ne_nil _ _) hw

theorem flatten_pieces (word cs : List Char) :
    (pieces word cs).flatten = word.reverse ++ cs.filter Letter.isAlphanumeric := by
  fun_induction pieces word cs with
  | case1 word => simp
  | case2 word c rest h ih => simp [ih, h]
  | case3 word c rest h ih => simp [ih, h]

theorem flatten_words (name : String) : (words name).flatten = name.toList.filter Letter.isAlphanumeric := by
  have hPieces : ∀ ps : List (List Char), (ps.flatMap (pieceWords .fresh [])).flatten = ps.flatten := by
    intro ps
    induction ps with
    | nil => rfl
    | cons p ps ih => simp [flatten_pieceWords, ih]
  rw [words, hPieces, flatten_pieces, List.reverse_nil, List.nil_append]

theorem ne_nil_of_mem_words (h : w ∈ words name) : w ≠ [] := by
  obtain ⟨piece, -, hw⟩ := List.mem_flatMap.mp h
  exact ne_nil_of_mem_pieceWords (by simp) hw

theorem isAlphanumeric_of_mem_words {c : Char} (h : w ∈ words name) (hc : c ∈ w) :
    Letter.isAlphanumeric c = true := by
  have hMem : c ∈ (words name).flatten := List.mem_flatten.mpr ⟨w, h, hc⟩
  rw [flatten_words] at hMem
  exact (List.mem_filter.mp hMem).2

end Words

section Lowered

def lowered (name : String) : List (List Char) := (words name).map lowerWord

theorem lowerWord_ne_nil (h : w ≠ []) : lowerWord w ≠ [] := by
  have hLower : ∀ c, Letter.lower c ≠ [] := by
    intro c
    unfold Letter.lower
    split
    · simp
    · split <;> simp
  fun_cases lowerWord w with
  | case1 => exact h
  | case2 c h => simp
  | case3 c h => exact hLower c
  | case4 c rest => simp [hLower]

theorem mem_lowerWord {d : Char} (h : d ∈ lowerWord w) : d = Char.ofNat 0x3C2 ∨ ∃ c ∈ w, d ∈ Letter.lower c := by
  fun_induction lowerWord w with
  | case1 => cases h
  | case2 c hc => exact .inl (List.mem_singleton.mp h)
  | case3 c hc => exact .inr ⟨c, List.mem_singleton_self c, h⟩
  | case4 c rest _ ih =>
    rcases List.mem_append.mp h with h | h
    · exact .inr ⟨c, List.mem_cons_self, h⟩
    · rcases ih h with h | ⟨b, hb, h⟩
      · exact .inl h
      · exact .inr ⟨b, List.mem_cons_of_mem c hb, h⟩

theorem le_of_mem_lowered {d : Char} (hw : w ∈ lowered name) (hd : d ∈ w) : d.toNat = 0 ∨ 48 ≤ d.toNat := by
  obtain ⟨v, hv, rfl⟩ := List.mem_map.mp hw
  rcases mem_lowerWord hd with rfl | ⟨c, hc, hd⟩
  · exact .inr (by decide)
  · exact Letter.le_lower (isAlphanumeric_of_mem_words hv hc) hd

theorem ne_nil_of_mem_lowered (hw : w ∈ lowered name) : w ≠ [] := by
  obtain ⟨v, hv, rfl⟩ := List.mem_map.mp hw
  exact lowerWord_ne_nil (ne_nil_of_mem_words hv)

theorem toList_ofName (name : String) : (ofName name).toList = ['-'].intercalate (lowered name) :=
  String.toList_ofList

theorem lowered_eq_nil_iff : lowered name = [] ↔ name.toList.any Letter.isAlphanumeric = false := by
  have hFlatten : (words name).flatten = [] ↔ words name = [] := by
    constructor
    · intro h
      rw [List.flatten_eq_nil_iff] at h
      exact List.eq_nil_iff_forall_not_mem.mpr fun w hw => ne_nil_of_mem_words hw (h w hw)
    · intro h
      rw [h]
      rfl
  rw [lowered, List.map_eq_nil_iff, ← hFlatten, flatten_words, List.filter_eq_nil_iff, List.any_eq_false]

/-- The hyphens of a name stand between its words. -/
theorem split_ofName (h : lowered name ≠ []) : Text.split (· == '-') (ofName name).toList = lowered name := by
  rw [toList_ofName]
  apply Text.split_intercalate (by decide) h
  intro w hw c hc
  rw [beq_eq_false_iff_ne]
  rintro rfl
  exact absurd (le_of_mem_lowered hw hc) (by decide)

theorem ofName_eq_empty_iff : ofName name = "" ↔ lowered name = [] := by
  constructor
  · intro h
    by_contra hne
    have hSplit := split_ofName hne
    rw [h] at hSplit
    have hWord : [] ∈ lowered name := by
      rw [← hSplit]
      exact List.mem_singleton_self []
    exact ne_nil_of_mem_lowered hWord rfl
  · intro h
    rw [← String.toList_inj, toList_ofName, h]
    rfl

/-- Names whose words differ by letter case alone cannot be told apart any more. -/
theorem ofName_eq_iff {other : String} : ofName name = ofName other ↔ lowered name = lowered other := by
  constructor
  · intro h
    by_cases hName : lowered name = []
    · rw [hName, eq_comm, ← ofName_eq_empty_iff, ← h, ofName_eq_empty_iff, hName]
    · have hOther : lowered other ≠ [] := by
        rwa [Ne, ← ofName_eq_empty_iff, ← h, ofName_eq_empty_iff]
      rw [← split_ofName hName, h, split_ofName hOther]
  · intro h
    rw [← String.toList_inj, toList_ofName, toList_ofName, h]

theorem slash_notMem_ofName (name : String) : '/' ∉ (ofName name).toList := by
  rw [toList_ofName]
  refine Text.notMem_intercalate (by decide) fun w hw hSlash => ?_
  exact absurd (le_of_mem_lowered hw hSlash) (by decide)

end Lowered

end Kebab

end ModuleAtlas
