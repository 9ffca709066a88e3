import ModuleAtlas.Proofs.Text.Legible
import Mathlib.Algebra.Ring.Nat

/-!
# Reading times back

Every day has a date of its own, and date, time of day and part of the second can be told from the
text of a time. What cannot be told is whether a moment was counted from its own second or, as
part of a leap second, from the one before. At the end of a minute even that shows.
-/

namespace ModuleAtlas.Timestamp

open Text

set_option autoImplicit false

/-! ## Numbers of a width -/

theorem toList_padded (width n : Nat) : (padded width n).toList =
    List.replicate (width - (Nat.toDigits 10 n).length) '0' ++ Nat.toDigits 10 n := by
  simp [padded, ← String.length_toList]

theorem ofDigitChars_padded (width n : Nat) : Nat.ofDigitChars 10 (padded width n).toList 0 = n := by
  rw [toList_padded, Nat.ofDigitChars_append, Nat.ofDigitChars_replicate_zero, Nat.mul_zero,
    Nat.ofDigitChars_ten_toDigits]

theorem isDigit_of_mem_padded {width n : Nat} {c : Char} (h : c ∈ (padded width n).toList) : c.isDigit = true := by
  rw [toList_padded, List.mem_append] at h
  rcases h with h | h
  · rw [List.eq_of_mem_replicate h]
    rfl
  · exact Nat.isDigit_of_mem_toDigits (by omega) (by omega) h

theorem length_padded {width n : Nat} (hWidth : 0 < width) (h : n < 10 ^ width) :
    (padded width n).toList.length = width := by
  have hLe := (Nat.length_toDigits_le_iff (by omega) hWidth).mpr h
  rw [toList_padded, List.length_append, List.length_replicate]
  omega

/-- The width does not show: only the number and what follows can be told. -/
theorem eq_of_padded {width width' m n : Nat} {rest rest' : List Char} (hRest : Undigited rest)
    (hRest' : Undigited rest') (hText : (padded width m).toList ++ rest = (padded width' n).toList ++ rest') :
    m = n ∧ (padded width m).toList = (padded width' n).toList ∧ rest = rest' := by
  obtain ⟨hDigits, hEnd⟩ := eq_of_digits (fun c => isDigit_of_mem_padded) (fun c => isDigit_of_mem_padded)
    hRest hRest' hText
  refine ⟨?_, hDigits, hEnd⟩
  rw [← ofDigitChars_padded width m, hDigits, ofDigitChars_padded]

theorem cons_ne_padded {c : Char} (hc : c.isDigit = false) {width n : Nat} {rest rest' : List Char} :
    c :: rest ≠ (padded width n).toList ++ rest' := by
  intro hText
  cases hDigits : (padded width n).toList with
  | nil =>
    have hLength := @Nat.length_toDigits_pos 10 n
    rw [toList_padded] at hDigits
    rw [(List.append_eq_nil_iff.mp hDigits).2] at hLength
    cases hLength
  | cons d digits =>
    rw [hDigits] at hText
    have hDigit := @isDigit_of_mem_padded width n d (hDigits ▸ List.mem_cons_self)
    rw [← (List.cons.inj hText).1, hc] at hDigit
    cases hDigit

/-! ## Dates -/

namespace Date

/-- The date of a day of a year that begins in March. -/
def ofYearDay (year : Int) (day : Nat) : Date :=
  let monthFromMarch := (5 * day + 2) / 153
  let month := if monthFromMarch < 10 then monthFromMarch + 3 else monthFromMarch - 9
  ⟨if month ≤ 2 then year + 1 else year, month, day - (153 * monthFromMarch + 2) / 5 + 1⟩

theorem ofYearDay_inj {year year' : Int} {day day' : Nat} (hDay : day < 366) (hDay' : day' < 366)
    (h : ofYearDay year day = ofYearDay year' day') : year = year' ∧ day = day' := by
  simp only [ofYearDay, Date.mk.injEq] at h
  obtain ⟨hYears, hMonths, hDays⟩ := h
  have hMonth : (5 * day + 2) / 153 = (5 * day' + 2) / 153 := by
    split at hMonths <;> split at hMonths <;> omega
  have hYear : ∀ month : Nat, (if month ≤ 2 then year + 1 else year) = (if month ≤ 2 then year' + 1 else year') →
      year = year' := by
    intro month h
    split at h <;> omega
  rw [hMonth] at hYears hDays
  exact ⟨hYear _ hYears, by omega⟩

def daysBefore (year : Nat) : Nat := 365 * year + year / 4 - year / 100

theorem century_of_day {day year century : Nat} (hDay : day < 146096) (hCentury : century = day / 36524)
    (hYear : year = (day - day / 1460 + century) / 365) : year / 100 = century := by
  have hCases : century = 0 ∨ century = 1 ∨ century = 2 ∨ century = 3 := by omega
  have hBounds : 100 * century ≤ year ∧ year < 100 * century + 100 := by
    rcases hCases with rfl | rfl | rfl | rfl <;> omega
  omega

theorem year_of_day (day : Nat) (hDay : day < 146097) {year : Nat}
    (hYear : year = (day - day / 1460 + day / 36524 - day / 146096) / 365) :
    year < 400 ∧ daysBefore year ≤ day ∧ day - daysBefore year < 366 := by
  unfold daysBefore
  by_cases hLast : day = 146096
  · subst hLast
    subst hYear
    decide
  · -- the last day of an era apart, centuries have one length
    have hNone : day / 146096 = 0 := by omega
    rw [hNone, Nat.sub_zero] at hYear
    have hCentury := century_of_day (by omega) rfl hYear
    omega

theorem ofDays_eq (days : Int) : ∃ (era : Int) (year day : Nat), year < 400 ∧ day < 366 ∧
    days + 719468 = era * 146097 + daysBefore year + day ∧ ofDays days = ofYearDay (year + era * 400) day := by
  have hEra : Int.fdiv (days + 719468) 146097 = (days + 719468) / 146097 :=
    Int.fdiv_eq_ediv_of_nonneg _ (by omega)
  obtain ⟨hYear, hBefore, hDay⟩ :=
    year_of_day (days + 719468 - (days + 719468) / 146097 * 146097).toNat (by omega) rfl
  refine ⟨(days + 719468) / 146097, _, _, hYear, hDay, by omega, ?_⟩
  rw [ofDays, hEra]
  rfl

theorem ofDays_injective : Function.Injective ofDays := by
  intro a b h
  obtain ⟨era, year, day, hYear, hDay, hDays, hDate⟩ := ofDays_eq a
  obtain ⟨era', year', day', hYear', hDay', hDays', hDate'⟩ := ofDays_eq b
  rw [hDate, hDate'] at h
  obtain ⟨hYears, rfl⟩ := ofYearDay_inj hDay hDay' h
  obtain rfl : era = era' := by omega
  obtain rfl : year = year' := by omega
  omega

end Date

/-! ## Written times -/

def yearSign (year : Int) : List Char :=
  if 0 ≤ year ∧ year ≤ 9999 then [] else if year < 0 then ['-'] else ['+']

theorem toList_yearText (year : Int) :
    (yearText year).toList = yearSign year ++ (padded 4 year.natAbs).toList := by
  unfold yearText yearSign
  split
  case isTrue h =>
    have hNatural : year.toNat = year.natAbs := by omega
    rw [hNatural, List.nil_append]
  case isFalse h =>
    rw [String.toList_append]
    split <;> rfl

theorem yearSign_cases (year : Int) :
    yearSign year = [] ∨ ∃ c, c.isDigit = false ∧ yearSign year = [c] := by
  unfold yearSign
  split
  case isTrue => exact .inl rfl
  case isFalse =>
    right
    split
    case isTrue => exact ⟨'-', rfl, rfl⟩
    case isFalse => exact ⟨'+', rfl, rfl⟩

theorem yearSign_eq_of_text {year year' : Int} {rest rest' : List Char}
    (hText : (yearText year).toList ++ rest = (yearText year').toList ++ rest') : yearSign year = yearSign year' := by
  rw [toList_yearText, toList_yearText, List.append_assoc, List.append_assoc] at hText
  rcases yearSign_cases year with h | ⟨c, hc, h⟩ <;> rcases yearSign_cases year' with h' | ⟨d, hd, h'⟩ <;>
    simp only [h, h', List.nil_append, List.singleton_append] at hText ⊢
  · exact absurd hText.symm (cons_ne_padded hd)
  · exact absurd hText (cons_ne_padded hc)
  · rw [(List.cons.inj hText).1]

theorem eq_of_yearSign {year year' : Int} (hSign : yearSign year = yearSign year')
    (hNumber : year.natAbs = year'.natAbs) : year = year' := by
  unfold yearSign at hSign
  split at hSign <;> split at hSign <;> grind

theorem eq_of_yearText {year year' : Int} {rest rest' : List Char} (hRest : Undigited rest)
    (hRest' : Undigited rest') (hText : (yearText year).toList ++ rest = (yearText year').toList ++ rest') :
    year = year' ∧ rest = rest' := by
  have hSign := yearSign_eq_of_text hText
  rw [toList_yearText, toList_yearText, hSign, List.append_assoc, List.append_assoc] at hText
  obtain ⟨hNumber, -, hEnd⟩ := eq_of_padded hRest hRest' (List.append_cancel_left hText)
  exact ⟨eq_of_yearSign hSign hNumber, hEnd⟩

/-- A part of a second that is written at all, as a number of three, six or nine digits. -/
theorem fraction_cases (t : Timestamp) : (t.nanoseconds % 1000000000 = 0 ∧ t.fraction = "") ∨
    ∃ width n, 0 < width ∧ width ≤ 9 ∧ n < 10 ^ width ∧ t.nanoseconds % 1000000000 = n * 10 ^ (9 - width) ∧
      t.fraction = "." ++ padded width n := by
  unfold fraction
  simp only [beq_iff_eq]
  split
  case isTrue h => exact .inl ⟨h, rfl⟩
  case isFalse h =>
    right
    split
    case isTrue hMillis => exact ⟨3, _, by omega, by omega, by omega, by omega, rfl⟩
    case isFalse hMillis =>
      split
      case isTrue hMicros => exact ⟨6, _, by omega, by omega, by omega, by omega, rfl⟩
      case isFalse hMicros => exact ⟨9, _, by omega, by omega, by omega, by omega, rfl⟩

theorem eq_of_fraction {t u : Timestamp}
    (hText : t.fraction.toList ++ ['Z'] = u.fraction.toList ++ ['Z']) :
    t.nanoseconds % 1000000000 = u.nanoseconds % 1000000000 := by
  have hZ : Undigited ['Z'] := by simp [Undigited]
  rcases fraction_cases t with ⟨hZero, h⟩ | ⟨width, n, hPos, hWidth, hn, hPart, h⟩ <;>
    rcases fraction_cases u with ⟨hZero', h'⟩ | ⟨width', n', hPos', hWidth', hn', hPart', h'⟩ <;>
    rw [h, h'] at hText
  · rw [hZero, hZero']
  · simp at hText
  · simp at hText
  · simp only [String.toList_append, List.append_assoc] at hText
    obtain ⟨rfl, hDigits, -⟩ := eq_of_padded hZ hZ (List.append_cancel_left hText)
    have hLength := congrArg List.length hDigits
    rw [length_padded hPos hn, length_padded hPos' hn'] at hLength
    rw [hPart, hPart', hLength]

theorem undigited_fraction (t : Timestamp) : Undigited (t.fraction.toList ++ ['Z']) := by
  rcases fraction_cases t with ⟨-, h⟩ | ⟨width, n, -, -, -, -, h⟩ <;> simp [h, Undigited]

def day (t : Timestamp) : Int := Int.fdiv t.seconds 86400

def timeOfDay (t : Timestamp) : Nat := (Int.fmod t.seconds 86400).toNat

def leap (t : Timestamp) : Nat := if 1000000000 ≤ t.nanoseconds then 1 else 0

theorem eq_of_head {t u : Timestamp} {rest rest' : List Char} (hRest : Undigited rest) (hRest' : Undigited rest')
    (hText : t.head.toList ++ rest = u.head.toList ++ rest') :
    t.day = u.day ∧ t.timeOfDay / 3600 = u.timeOfDay / 3600 ∧ t.timeOfDay / 60 % 60 = u.timeOfDay / 60 % 60 ∧
      t.timeOfDay % 60 + t.leap = u.timeOfDay % 60 + u.leap ∧ rest = rest' := by
  have hMark : ∀ (c : Char) (text : List Char), c.isDigit = false → Undigited ([c] ++ text) := by
    intro c text hc d hd
    cases hd
    exact hc
  have hYears := hText
  simp only [head, String.toList_append, List.append_assoc] at hYears
  obtain ⟨hYear, hMonths⟩ := eq_of_yearText (hMark '-' _ rfl) (hMark '-' _ rfl) hYears
  obtain ⟨hMonth, -, hDays⟩ := eq_of_padded (hMark '-' _ rfl) (hMark '-' _ rfl) (List.append_cancel_left hMonths)
  obtain ⟨hDay, -, hHours⟩ := eq_of_padded (hMark 'T' _ rfl) (hMark 'T' _ rfl) (List.append_cancel_left hDays)
  obtain ⟨hHour, -, hMinutes⟩ := eq_of_padded (hMark ':' _ rfl) (hMark ':' _ rfl) (List.append_cancel_left hHours)
  obtain ⟨hMinute, -, hSeconds⟩ := eq_of_padded (hMark ':' _ rfl) (hMark ':' _ rfl) (List.append_cancel_left hMinutes)
  obtain ⟨hSecond, -, hEnd⟩ := eq_of_padded hRest hRest' (List.append_cancel_left hSeconds)
  have hDate : ∀ d e : Date, d.year = e.year → d.month = e.month → d.day = e.day → d = e := by
    rintro ⟨year, month, day⟩ ⟨year', month', day'⟩ rfl rfl rfl
    rfl
  exact ⟨Date.ofDays_injective (hDate _ _ hYear hMonth hDay), hHour, hMinute, hSecond, hEnd⟩

theorem seconds_eq (t : Timestamp) : t.seconds = t.day * 86400 + t.timeOfDay ∧ t.timeOfDay < 86400 := by
  have hDay : Int.fdiv t.seconds 86400 = t.seconds / 86400 := Int.fdiv_eq_ediv_of_nonneg _ (by omega)
  have hTime : Int.fmod t.seconds 86400 = t.seconds % 86400 := Int.fmod_eq_emod_of_nonneg _ (by omega)
  rw [day, timeOfDay, hDay, hTime]
  omega

theorem head_congr {t u : Timestamp} (hDay : t.day = u.day) (hMinute : t.timeOfDay / 60 = u.timeOfDay / 60)
    (hSecond : t.timeOfDay % 60 + t.leap = u.timeOfDay % 60 + u.leap) : t.head = u.head := by
  have hHour : t.timeOfDay / 3600 = u.timeOfDay / 3600 := by omega
  unfold day timeOfDay leap at *
  simp only [head, hDay, hHour, hMinute, hSecond]

/-! ## Times that are written alike -/

/-- At most two billion nanoseconds are counted from one second: its own and those of a leap second. -/
def Bounded (t : Timestamp) : Prop := t.nanoseconds < 2000000000

/-- The same moment, counted from seconds of the same minute. -/
structure Alike (t u : Timestamp) : Prop where
  minute : t.seconds / 60 = u.seconds / 60
  moment : t.seconds * 1000000000 + t.nanoseconds = u.seconds * 1000000000 + u.nanoseconds

/-- A leap second stands at the end of a minute. -/
def Valid (t : Timestamp) : Prop :=
  t.nanoseconds < 1000000000 ∨ (t.nanoseconds < 2000000000 ∧ t.seconds % 60 = 59)

instance (t : Timestamp) : Decidable t.Bounded := inferInstanceAs (Decidable (_ < _))

instance (t : Timestamp) : Decidable t.Valid := inferInstanceAs (Decidable (_ ∨ _))

theorem Bounded.nanoseconds_eq {t : Timestamp} (h : t.Bounded) :
    t.nanoseconds = t.leap * 1000000000 + t.nanoseconds % 1000000000 := by
  unfold Bounded at h
  unfold leap
  split <;> omega

theorem Alike.head_eq {t u : Timestamp} (h : t.Alike u) (ht : t.Bounded) (hu : u.Bounded) : t.head = u.head := by
  obtain ⟨hMinute, hMoment⟩ := h
  obtain ⟨hSeconds, hTime⟩ := t.seconds_eq
  obtain ⟨hSeconds', hTime'⟩ := u.seconds_eq
  have hNanos := ht.nanoseconds_eq
  have hNanos' := hu.nanoseconds_eq
  apply head_congr <;> omega

theorem full_eq_full_iff {t u : Timestamp} (ht : t.Bounded) (hu : u.Bounded) : t.full = u.full ↔ t.Alike u := by
  have hNanos := ht.nanoseconds_eq
  have hNanos' := hu.nanoseconds_eq
  constructor
  · intro hText
    have hChars := congrArg String.toList hText
    simp only [full, String.toList_append, List.append_assoc] at hChars
    obtain ⟨hDay, hHour, hMinute, hSecond, hParts⟩ :=
      eq_of_head t.undigited_fraction u.undigited_fraction hChars
    have hPart := eq_of_fraction hParts
    obtain ⟨hSeconds, hTime⟩ := t.seconds_eq
    obtain ⟨hSeconds', hTime'⟩ := u.seconds_eq
    exact ⟨by omega, by omega⟩
  · intro h
    have hMoment := h.moment
    have hPart : t.nanoseconds % 1000000000 = u.nanoseconds % 1000000000 := by omega
    have hFraction : t.fraction = u.fraction := by simp only [fraction, hPart]
    rw [full, full, h.head_eq ht hu, hFraction]

/-- A leap second is told by the number sixty, which no other second has. -/
theorem Valid.alike_iff {t u : Timestamp} (ht : t.Valid) (hu : u.Valid) : t.Alike u ↔ t = u := by
  unfold Valid at ht hu
  constructor
  · rintro ⟨hMinute, hMoment⟩
    have hSame : t.seconds = u.seconds ∧ t.nanoseconds = u.nanoseconds := by omega
    cases t
    cases u
    simpa using hSame
  · rintro rfl
    exact ⟨rfl, rfl⟩

end ModuleAtlas.Timestamp
