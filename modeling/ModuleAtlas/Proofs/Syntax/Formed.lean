import ModuleAtlas.Proofs.Syntax.Forward
import ModuleAtlas.Proofs.Syntax.Tree

/-!
# Every tree that is read is well-formed

Rules give nodes that lie in what they read, and a comment is put into the gap where it was found,
so that in the finished tree each node stands inside its parent and after the child before it.
-/

namespace ModuleAtlas

set_option autoImplicit false

open Node

namespace Comment

variable {s : Source} {lo hi i stop : Nat} {acc : List Node}

theorem allLie_snoc {k : Kind} {j l : Nat} (hij : i ≤ j) (hjl : j ≤ l) (h : AllLie lo i acc.reverse) :
    AllLie lo l (leaf k none j (s.slice j l) :: acc).reverse := by
  rw [List.reverse_cons]
  exact h.append (.singleton (lies_leaf hij (Parser.slice_fits hjl)))

theorem allLie_between (fuel : Nat) (hStop : i ≤ stop) (h : AllLie lo i acc.reverse) :
    AllLie lo stop (between s stop fuel i acc).reverse := by
  induction fuel generalizing i acc with
  | zero => exact h.widen (Nat.le_refl lo) hStop
  | succ fuel ih =>
    have hBlanks := Lexeme.le_skipBlanks s i
    have hDone : AllLie lo stop acc.reverse := h.widen (Nat.le_refl lo) hStop
    unfold between
    dsimp only
    split
    · split
      case h_1 k hk =>
        split
        · exact ih ‹_› (allLie_snoc hBlanks (Lexeme.le_of_commentEnd? hk) h)
        · exact hDone
      case h_2 =>
        split
        case h_1 k hk =>
          split
          · exact ih ‹_› (allLie_snoc hBlanks (Lexeme.le_of_markupCommentEnd? hk) h)
          · exact hDone
        case h_2 => exact hDone
    · exact hDone

theorem allLie_gather (hHi : i ≤ hi) (h : AllLie lo i acc.reverse) :
    AllLie lo hi (gather s i hi acc).reverse := by
  unfold gather
  split
  · exact allLie_between _ hHi h
  · exact h.widen (Nat.le_refl lo) hHi

theorem start_place (s : Source) (n : Node) : (place s n).start = n.start := by
  cases n <;> rfl

theorem stop_place (s : Source) (n : Node) : (place s n).stop = n.stop := by
  cases n <;> rfl

mutual

theorem formed_place (s : Source) (n : Node) (h : n.Formed) : (place s n).Formed := by
  cases n with
  | leaf k r i t => exact formed_leaf
  | branch k r i e cs =>
    obtain ⟨hPlaced, hStretched, hChildren⟩ := formed_iff.mp h
    have hNone : AllLie i i ([] : List Node).reverse := allLie_nil (Nat.le_refl i)
    have hAll := allLie_placeAll s cs hNone ⟨hPlaced, hChildren⟩
    refine formed_iff.mpr ⟨hAll.placed, ?_, hAll.formed⟩
    -- A node without children gets comments only if there is room for them.
    rcases hStretched with hNarrow | hEmpty | hLt
    · exact .inl hNarrow
    · cases (show cs = [] from hEmpty)
      rcases Nat.lt_or_ge i e with hLt | hGe
      · exact .inr (.inr hLt)
      · exact .inr (.inl (by simp [place, placeAll, gather, children, Nat.not_lt.mpr hGe]))
    · exact .inr (.inr hLt)

theorem allLie_placeAll (s : Source) {lo i stop : Nat} (cs : List Node) {acc : List Node}
    (hAcc : AllLie lo i acc.reverse) (h : AllLie i stop cs) :
    AllLie lo stop (placeAll s stop cs i acc).reverse := by
  cases cs with
  | nil => exact allLie_gather h.placed hAcc
  | cons c cs =>
    obtain ⟨⟨hStart, hProper, hRest⟩, hFormed⟩ := h
    obtain ⟨hc, hcs⟩ := List.forall_mem_cons.mp hFormed
    have hPlace : (place s c).Lies c.start c.stop :=
      ⟨formed_place s c hc, Nat.le_of_eq (start_place s c).symm, Nat.le_of_eq (stop_place s c)⟩
    refine allLie_placeAll s cs ?_ ⟨hRest, hcs⟩
    rw [List.reverse_cons]
    exact (allLie_gather hStart hAcc).append (.singleton hPlace)

end

end Comment

namespace Syntax

open Grammar ModuleAtlas.Parser

theorem reads_programRule : programRule.Reads 0 0 := by
  refine .step fun first => .step fun body => .step fun last => .step fun atEnd => .step fun closed => ?_
  have hRun : Run (first.val ++ body.val) 0 body.stop := inferInstance
  have hStop : Reaches body.stop closed.stop := inferInstance
  have hLies : Node.Lies 0 closed.stop (branch .program none 0 closed.stop (first.val ++ body.val)) :=
    lies_branch (Nat.le_refl 0) (hRun.lies.widen (Nat.le_refl 0) hStop.le) (.inl rfl)
  exact .mk fun site hSite => (reads_pure hLies).reads site hSite

theorem steady_rule (g : Goal) : (rule g).Steady := by
  cases g <;> unfold rule <;> infer_instance

theorem ranged_answer (s : Source) (d : Dialect) (depth : Nat) : Site.Ranged ⟨s, d, answer s d depth⟩ := by
  induction depth with
  | zero => exact ⟨nofun, nofun⟩
  | succ depth ih =>
    have hAnswer : ∀ g i n j, answer s d (depth + 1) g i = some (n, j) → i ≤ j ∧ n.Lies i j :=
      fun g i n j h => ((steady_rule g).reads i).reads _ ih n j h
    exact ⟨fun g i n j h => (hAnswer g i n j h).1, fun g i n j h => (hAnswer g i n j h).2⟩

theorem kind_of_programRule {site : Site} {i j : Nat} {n : Node} (h : programRule site i = some (n, j)) :
    n.kind = .program := by
  obtain ⟨first, _, -, h⟩ := exists_of_bind h
  obtain ⟨body, _, -, h⟩ := exists_of_bind h
  obtain ⟨_, _, -, h⟩ := exists_of_bind h
  obtain ⟨done, _, -, h⟩ := exists_of_bind h
  obtain ⟨_, _, -, h⟩ := exists_of_bind h
  obtain ⟨stop, _, -, h⟩ := exists_of_bind h
  cases h
  rfl

theorem formed_of_parse {d : Dialect} {s : Source} {n : Node} (h : parse d s = some n) : n.Formed := by
  unfold parse at h
  split at h
  case h_1 m j hm =>
    cases h
    exact Comment.formed_place s m (reads_programRule.reads _ (ranged_answer s d _) m j hm).2.formed
  case h_2 => cases h

theorem kind_of_parse {d : Dialect} {s : Source} {n : Node} (h : parse d s = some n) : n.kind = .program := by
  unfold parse at h
  split at h
  case h_1 m j hm =>
    cases h
    rw [Comment.kind_place, kind_of_programRule hm]
  case h_2 => cases h

end Syntax

end ModuleAtlas
