import ModuleAtlas.Syntax.Source
import Mathlib.Data.List.Range
import Mathlib.Tactic.Common

/-!
# Lines of positions

The search in a line table ends between the feeds before a position and those from it on. So the
line of a position is one more than the number of line feeds before it, and lines never fall from
a position to a later one.
-/

namespace ModuleAtlas

set_option autoImplicit false

namespace Source

theorem toList_lineFeeds_go (s : Source) (n i : Nat) (acc : Array Nat) :
    (lineFeeds.go s n i acc).toList = acc.toList ++ (List.range' i n).filter (s.byte · == 10) := by
  induction n generalizing i acc with
  | zero => simp [lineFeeds.go]
  | succ n ih =>
    rw [lineFeeds.go, ih, List.range'_succ]
    cases hByte : s.byte i == 10 <;> simp [hByte]

theorem toList_lineFeeds (s : Source) :
    s.lineFeeds.toList = (List.range s.size).filter (s.byte · == 10) := by
  rw [lineFeeds, toList_lineFeeds_go, List.range_eq_range']
  rfl

end Source

namespace LineTable

variable {t : LineTable} {position lo hi : Nat}

def Ordered (t : LineTable) : Prop := t.feeds.toList.Pairwise (· ≤ ·)

theorem ordered_ofSource (s : Source) : (ofSource s).Ordered := by
  rw [Ordered, ofSource, s.toList_lineFeeds]
  exact List.pairwise_le_range.filter _

theorem Ordered.getD_le (h : t.Ordered) {k l : Nat} (hkl : k ≤ l) (hl : l < t.feeds.size) :
    t.feeds.getD k 0 ≤ t.feeds.getD l 0 := by
  have hk : k < t.feeds.size := by omega
  simp only [Array.getD, hk, hl, dif_pos]
  rcases Nat.lt_or_eq_of_le hkl with hlt | rfl
  · exact List.pairwise_iff_getElem.mp h k l hk hl hlt
  · exact Nat.le_refl _

/-- The feeds up to `lo` stand before the position, those from `hi` on do not. -/
structure Cut (t : LineTable) (position lo hi : Nat) : Prop where
  le : lo ≤ hi
  fits : hi ≤ t.feeds.size
  before : ∀ k < lo, t.feeds.getD k 0 < position
  after : ∀ k, hi ≤ k → k < t.feeds.size → position ≤ t.feeds.getD k 0

theorem Cut.upper (hOrdered : t.Ordered) (h : t.Cut position lo hi) (hlt : lo < hi)
    (hMid : t.feeds.getD ((lo + hi) / 2) 0 < position) : t.Cut position ((lo + hi) / 2 + 1) hi where
  le := by omega
  fits := h.fits
  before k hk := Nat.lt_of_le_of_lt (hOrdered.getD_le (by omega) (by have := h.fits; omega)) hMid
  after := h.after

theorem Cut.lower (hOrdered : t.Ordered) (h : t.Cut position lo hi) (hlt : lo < hi)
    (hMid : position ≤ t.feeds.getD ((lo + hi) / 2) 0) : t.Cut position lo ((lo + hi) / 2) where
  le := by omega
  fits := by have := h.fits; omega
  before := h.before
  after _ hk hSize := hMid.trans (hOrdered.getD_le hk hSize)

theorem Cut.closed (h : t.Cut position lo hi) (hle : hi ≤ lo) : t.Cut position lo lo := by
  obtain rfl := Nat.le_antisymm h.le hle
  exact h

/-- With fuel for each feed between the bounds, the search ends where they meet. -/
theorem Cut.feedsBefore (hOrdered : t.Ordered) {fuel : Nat} (h : t.Cut position lo hi)
    (hFuel : hi - lo ≤ fuel) :
    t.Cut position (t.feedsBefore position fuel lo hi) (t.feedsBefore position fuel lo hi) := by
  -- Every step takes at least one feed out of those between the bounds.
  induction fuel generalizing lo hi with
  | zero => exact h.closed (by omega)
  | succ fuel ih =>
    rw [LineTable.feedsBefore]
    split
    case isFalse hge => exact h.closed (by omega)
    case isTrue hlt =>
      dsimp only
      split
      case isTrue hMid => exact ih (h.upper hOrdered hlt hMid) (by omega)
      case isFalse hMid => exact ih (h.lower hOrdered hlt (by omega)) (by omega)

theorem Cut.eq_countP {r : Nat} (h : t.Cut position r r) :
    r = t.feeds.toList.countP (· < position) := by
  have hBefore : (t.feeds.toList.take r).countP (· < position) = (t.feeds.toList.take r).length := by
    rw [List.countP_eq_length]
    intro feed hFeed
    obtain ⟨k, hk, rfl⟩ := List.mem_take_iff_getElem.mp hFeed
    have hSize : k < t.feeds.size := by simp only [Array.length_toList] at hk; omega
    simpa [Array.getD, hSize] using h.before k (by omega)
  have hAfter : (t.feeds.toList.drop r).countP (· < position) = 0 := by
    rw [List.countP_eq_zero]
    intro feed hFeed
    obtain ⟨k, hk, rfl⟩ := List.mem_drop_iff_getElem.mp hFeed
    have hSize : r + k < t.feeds.size := by simp only [Array.length_toList] at hk; omega
    simpa [Array.getD, hSize] using h.after (r + k) (by omega) hSize
  rw [← List.take_append_drop r t.feeds.toList, List.countP_append, hBefore, hAfter]
  simp [h.fits]

theorem Ordered.lineAt_eq (h : t.Ordered) (position : Nat) :
    t.lineAt position = t.feeds.toList.countP (· < position) + 1 := by
  have hStart : t.Cut position 0 t.feeds.size := ⟨by omega, by omega, by omega, by omega⟩
  exact congrArg (· + 1) (hStart.feedsBefore h (by omega)).eq_countP

theorem lineAt_ofSource (s : Source) (position : Nat) : (ofSource s).lineAt position =
    ((List.range s.size).filter (s.byte · == 10)).countP (· < position) + 1 := by
  rw [(ordered_ofSource s).lineAt_eq, ofSource, s.toList_lineFeeds]

theorem lineAt_mono (s : Source) {position later : Nat} (h : position ≤ later) :
    (ofSource s).lineAt position ≤ (ofSource s).lineAt later := by
  rw [lineAt_ofSource, lineAt_ofSource]
  refine Nat.succ_le_succ (List.countP_mono_left fun feed _ hFeed => ?_)
  simp only [decide_eq_true_eq] at hFeed ⊢
  omega

end LineTable

end ModuleAtlas
