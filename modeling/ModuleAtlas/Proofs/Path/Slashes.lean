import ModuleAtlas.Proofs.Path.Display
import ModuleAtlas.Proofs.Path.Parent

/-!
# Slashes in paths

The steps of a written path lie between its slashes, and slashes around a text stand for no
steps. Where a path leads from a directory depends on its steps alone.
-/

namespace ModuleAtlas

set_option autoImplicit false

namespace Text

theorem split_append_cons {p : Char → Bool} {s : Char} (hs : p s = true) (front rest : List Char) :
    split p (front ++ s :: rest) = split p front ++ split p rest := by
  induction front with
  | nil => simp [split, hs]
  | cons c front ih =>
    rw [List.cons_append]
    cases hc : p c with
    | true => simp only [split, hc, if_true, ih, List.cons_append]
    | false =>
      obtain ⟨w, ws, hFront⟩ := List.exists_cons_of_ne_nil (split_ne_nil (p := p) front)
      rw [split_cons_of_free hc hFront, split_cons_of_free hc (by rw [ih, hFront]; rfl)]
      rfl

end Text

namespace Path

open ModuleAtlas.Part

section Slashes

def stepsOf (text : List Char) : List Part :=
  (((Text.split (· == '/') text).map String.ofList).map Piece.ofString).filterMap ofPiece?

theorem stepsOf_slash (front rest : List Char) : stepsOf (front ++ '/' :: rest) = stepsOf front ++ stepsOf rest := by
  rw [stepsOf, Text.split_append_cons (by decide), List.map_append, List.map_append, List.filterMap_append]
  rfl

theorem stepsOf_dropWhile (text : List Char) : stepsOf (text.dropWhile (· == '/')) = stepsOf text := by
  induction text with
  | nil => rfl
  | cons c text ih =>
    rw [List.dropWhile_cons]
    split
    · rename_i hSlash
      rw [eq_of_beq hSlash]
      exact ih.trans (stepsOf_slash [] text).symm
    · rfl

theorem stepsOf_dropWhile_reverse (text : List Char) :
    stepsOf (text.reverse.dropWhile (· == '/')).reverse = stepsOf text := by
  induction text using List.reverseRecOn with
  | nil => rfl
  | append_singleton text c ih =>
    rw [List.reverse_concat, List.dropWhile_cons]
    split
    · rename_i hSlash
      rw [eq_of_beq hSlash, ih, stepsOf_slash]
      exact (List.append_nil _).symm
    · rw [List.reverse_cons, List.reverse_reverse]

theorem steps_ofString_eq (text : String) : (ofString text).steps = stepsOf text.toList := steps_ofString text

theorem steps_slash (s t : String) : (ofString (s ++ "/" ++ t)).steps = (ofString s).steps ++ (ofString t).steps := by
  have hText : (s ++ "/" ++ t).toList = s.toList ++ '/' :: t.toList := by simp
  rw [steps_ofString_eq, hText, stepsOf_slash, steps_ofString_eq, steps_ofString_eq]

theorem steps_trimStart (text : String) :
    (ofString (Text.trimStart (· == '/') text)).steps = (ofString text).steps := by
  rw [steps_ofString_eq, Text.trimStart, String.toList_ofList, stepsOf_dropWhile, steps_ofString_eq]

/-- Slashes around a text stand for no steps. -/
theorem steps_trim (text : String) : (ofString (Text.trim (· == '/') text)).steps = (ofString text).steps := by
  rw [steps_ofString_eq, Text.trim, String.toList_ofList, stepsOf_dropWhile_reverse, stepsOf_dropWhile,
    steps_ofString_eq]

theorem rooted_trimStart (text : String) : (ofString (Text.trimStart (· == '/') text)).rooted = false := by
  rw [rooted_ofString, Text.trimStart, String.toList_ofList, beq_eq_false_iff_ne]
  intro hSlash
  have hHead := List.head?_dropWhile_not (· == '/') text.toList
  simp [hSlash] at hHead

end Slashes

def reach (p : Path) (steps : List Part) : Path := ⟨p.rooted, (steps.foldl resolveStep p.landing).reverse⟩

theorem normalize_join_eq_reach (p : Path) {q : Path} (h : q.rooted = false) :
    (p.join q).normalize = p.reach q.steps :=
  normalize_join p h

theorem normalize_join_join (p : Path) {q s : Path} (hq : q.rooted = false) (hs : s.rooted = false) :
    ((p.join q).join s).normalize = p.reach (q.steps ++ s.steps) := by
  rw [normalize_join_eq_reach _ hs, reach, reach, landing, steps_join p hq, rooted_join p hq, List.foldl_append,
    List.foldl_append, landing]

/-- From a file in a directory, steps lead where they lead from the directory. -/
theorem parent?_join_name (p : Path) {q : Path} {s : Piece} (hq : q.rooted = false) (hSteps : q.steps = [name s]) :
    ∃ dir, (p.join q).parent? = some dir ∧ ∀ steps, dir.reach steps = p.reach steps := by
  have hJoined := steps_join p hq
  rw [hSteps] at hJoined
  obtain ⟨-, hNone, -⟩ | ⟨dir, hDir, hRooted, hParent, -⟩ := (p.join q).parent?_cases
  · simp [hJoined] at hNone
  · rw [hJoined, List.dropLast_concat] at hParent
    refine ⟨dir, hDir, fun steps => ?_⟩
    rw [reach, reach, landing, landing, hParent, hRooted, rooted_join p hq]

end Path

end ModuleAtlas
