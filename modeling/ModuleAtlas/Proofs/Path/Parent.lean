import ModuleAtlas.Proofs.Path.Normal

/-!
# Containing directories

The directory that contains a path is reached by all steps but the last. Normalizing a path
first leads to the same directory if the path ends in a name. If it ends in a step up that takes
back a name, its normal form lies in another directory.
-/

namespace ModuleAtlas.Path

open ModuleAtlas.Part

set_option autoImplicit false

section Parent

theorem ofPiece?_eq_none_iff {piece : Piece} : ofPiece? piece = none ↔ isVoid piece = true := by
  unfold ofPiece? isVoid
  split
  · rename_i hVoid
    simp [hVoid]
  · rename_i hVoid
    split <;> simp [hVoid]

theorem trimPieces_cases (pieces : List Piece) :
    (trimPieces pieces = [] ∧ pieces.filterMap ofPiece? = []) ∨
    ∃ front last part, trimPieces pieces = front ++ [last] ∧ ofPiece? last = some part ∧
      pieces.filterMap ofPiece? = front.filterMap ofPiece? ++ [part] := by
  induction pieces using List.reverseRecOn with
  | nil => exact .inl ⟨rfl, rfl⟩
  | append_singleton pieces piece ih =>
    cases hPiece : ofPiece? piece with
    | none =>
      have hTrim : trimPieces (pieces ++ [piece]) = trimPieces pieces := by
        simp [trimPieces, ofPiece?_eq_none_iff.mp hPiece]
      have hSteps : (pieces ++ [piece]).filterMap ofPiece? = pieces.filterMap ofPiece? := by simp [hPiece]
      rwa [hTrim, hSteps]
    | some part =>
      have hSolid : isVoid piece = false := by
        rw [← Bool.not_eq_true, ← ofPiece?_eq_none_iff, hPiece]
        exact Option.some_ne_none part
      refine .inr ⟨pieces, piece, part, by simp [trimPieces, hSolid], hPiece, by simp [hPiece]⟩

def BeginsHere (p : Path) : Prop := p.rooted = false ∧ p.pieces.head? = some (.ofString ".")

theorem start_eq_here_iff {p : Path} : p.start = [here] ↔ p.BeginsHere := by
  unfold start BeginsHere
  split
  · rename_i hRooted
    simp [hRooted]
  · rename_i hRooted
    simp [hRooted]

theorem trimmed_of_beginsHere {p : Path} (h : p.BeginsHere) :
    p.trimmed = ⟨false, "." :: trimPieces p.pieces.tail⟩ := by
  rw [trimmed, if_pos (by simp [h.1, h.2])]

theorem trimmed_of_not_beginsHere {p : Path} (h : ¬ p.BeginsHere) : p.trimmed = ⟨p.rooted, trimPieces p.pieces⟩ := by
  rw [trimmed, if_neg]
  simpa [BeginsHere] using h

/-- How a path ends: it has no steps, or it is a dot, or a piece with a step comes last. -/
theorem trimmed_cases (p : Path) :
    (p.trimmed.pieces = [] ∧ p.steps = [] ∧ p.parts ≠ [here]) ∨
    (p.trimmed.pieces = [.ofString "."] ∧ p.steps = [] ∧ p.parts = [here]) ∨
    ∃ front last part, p.trimmed.pieces = front ++ [last] ∧ ofPiece? last = some part ∧
      p.steps = front.filterMap ofPiece? ++ [part] := by
  by_cases hHere : p.BeginsHere
  · obtain ⟨rest, hPieces⟩ := List.head?_eq_some_iff.mp hHere.2
    have hSteps : p.steps = rest.filterMap ofPiece? := by simp [steps, hPieces, ofPiece?]
    rw [trimmed_of_beginsHere hHere, parts_eq, start_eq_here_iff.mpr hHere, hSteps, hPieces, List.tail_cons]
    obtain ⟨hTrim, hNone⟩ | ⟨front, last, part, hTrim, hLast, hRest⟩ := trimPieces_cases rest
    · exact .inr (.inl ⟨by rw [hTrim], hNone, by rw [hNone, List.append_nil]⟩)
    · refine .inr (.inr ⟨"." :: front, last, part, by rw [hTrim]; rfl, hLast, ?_⟩)
      rw [hRest]
      simp [ofPiece?]
  · rw [trimmed_of_not_beginsHere hHere]
    obtain ⟨hTrim, hNone⟩ | ⟨front, last, part, hTrim, hLast, hSteps⟩ := trimPieces_cases p.pieces
    · refine .inl ⟨hTrim, hNone, ?_⟩
      rw [parts_eq, show p.steps = [] from hNone, List.append_nil]
      exact fun hStart => hHere (start_eq_here_iff.mp hStart)
    · exact .inr (.inr ⟨front, last, part, hTrim, hLast, hSteps⟩)

theorem rooted_trimmed (p : Path) : p.trimmed.rooted = p.rooted := by
  by_cases hHere : p.BeginsHere
  · rw [trimmed_of_beginsHere hHere, hHere.1]
  · rw [trimmed_of_not_beginsHere hHere]

theorem steps_trimmed (p : Path) : p.trimmed.steps = p.steps := by
  obtain ⟨hTrim, hSteps, -⟩ | ⟨hTrim, hSteps, -⟩ | ⟨front, last, part, hTrim, hLast, hSteps⟩ := p.trimmed_cases
  · rw [steps, hTrim, hSteps]
    rfl
  · rw [steps, hTrim, hSteps]
    decide
  · rw [steps, hTrim, hSteps]
    simp [hLast]

theorem parent?_eq_some {p : Path} (h : p.trimmed.pieces ≠ []) :
    p.parent? = some (trimmed ⟨p.rooted, p.trimmed.pieces.dropLast⟩) := by
  unfold parent?
  split
  · contradiction
  · rfl

theorem parent?_cases (p : Path) :
    (p.parent? = none ∧ p.steps = [] ∧ p.parts ≠ [here]) ∨
    ∃ dir, p.parent? = some dir ∧ dir.rooted = p.rooted ∧ dir.steps = p.steps.dropLast ∧
      (p.steps = [] → p.parts = [here]) := by
  obtain ⟨hTrim, hSteps, hParts⟩ | ⟨hTrim, hSteps, hParts⟩ | ⟨front, last, part, hTrim, hLast, hSteps⟩ :=
    p.trimmed_cases
  · refine .inl ⟨?_, hSteps, hParts⟩
    rw [parent?, hTrim]
  · refine .inr ⟨_, parent?_eq_some (by simp [hTrim]), rooted_trimmed _, ?_, fun _ => hParts⟩
    rw [steps_trimmed, hTrim, hSteps]
    rfl
  · refine .inr ⟨_, parent?_eq_some (by simp [hTrim]), rooted_trimmed _, ?_, fun hNone => ?_⟩
    · rw [steps_trimmed, hTrim, hSteps, List.dropLast_concat, List.dropLast_concat]
      rfl
    · rw [hSteps] at hNone
      simp at hNone

end Parent

section Inside

theorem start_eq_of_head? {p q : Path} (hRooted : p.rooted = q.rooted)
    (hDot : p.pieces.head? = some (.ofString ".") ↔ q.pieces.head? = some (.ofString ".")) : p.start = q.start := by
  simp only [start, hRooted, beq_iff_eq, hDot]

theorem trimPieces_prefix (pieces : List Piece) : trimPieces pieces <+: pieces := by
  rw [← List.reverse_suffix, trimPieces, List.reverse_reverse]
  exact List.dropWhile_suffix _

theorem parts_trimmed (p : Path) : p.trimmed.parts = p.parts := by
  have hStart : p.trimmed.start = p.start := by
    by_cases hHere : p.BeginsHere
    · rw [trimmed_of_beginsHere hHere]
      exact start_eq_of_head? hHere.1.symm (by simp [hHere.2])
    · rw [trimmed_of_not_beginsHere hHere]
      cases hRooted : p.rooted with
      | true => simp [start, hRooted]
      | false =>
        have hDot : p.pieces.head? ≠ some (.ofString ".") := fun hHead => hHere ⟨hRooted, hHead⟩
        refine start_eq_of_head? hRooted.symm (iff_of_false (fun hHead => hDot ?_) hDot)
        obtain ⟨rest, hRest⟩ := List.head?_eq_some_iff.mp hHead
        obtain ⟨others, hPieces⟩ := trimPieces_prefix p.pieces
        rw [← hPieces, show trimPieces p.pieces = _ from hRest]
        rfl
  rw [parts_eq, parts_eq, steps_trimmed, hStart]

/-- The directory that contains a path has all its parts but the last. -/
theorem parts_parent? {p dir : Path} (h : p.parent? = some dir) : dir.parts = p.parts.dropLast := by
  obtain ⟨hTrim, -, -⟩ | ⟨hTrim, -, hParts⟩ | ⟨front, last, part, hTrim, hLast, -⟩ := p.trimmed_cases
  · rw [parent?, hTrim] at h
    cases h
  · rw [parent?_eq_some (by simp [hTrim]), Option.some.injEq] at h
    have hRooted : p.rooted = false := by
      cases hRooted : p.rooted with
      | false => rfl
      | true =>
        rw [parts_eq, start, if_pos hRooted] at hParts
        cases hParts
    rw [← h, parts_trimmed, hTrim, hRooted, hParts]
    rfl
  · rw [parent?_eq_some (by simp [hTrim]), Option.some.injEq] at h
    have hStart : start ⟨p.rooted, front⟩ = p.trimmed.start := by
      refine start_eq_of_head? (rooted_trimmed p).symm ?_
      rw [hTrim]
      cases front with
      | nil =>
        have hDot : last ≠ "." := by
          rintro rfl
          cases hLast
        simp [hDot]
      | cons piece front => simp
    have hSteps : p.trimmed.steps = front.filterMap ofPiece? ++ [part] := by
      rw [steps, hTrim]
      simp [hLast]
    rw [← h, parts_trimmed, hTrim, List.dropLast_concat, ← parts_trimmed p, parts_eq p.trimmed, hSteps,
      ← List.append_assoc, List.dropLast_concat, ← hStart]
    rfl

theorem parts_join_name (dir : Path) {s : Piece} (hs : Plain s) :
    (dir.join ⟨false, [s]⟩).parts = dir.parts ++ [name s] := by
  have hSteps : steps ⟨false, [s]⟩ = [name s] := filterMap_ofPiece?_of_plain (List.forall_mem_singleton.mpr hs)
  have hStart : (dir.join ⟨false, [s]⟩).start = dir.start := by
    refine start_eq_of_head? (rooted_join dir rfl) ?_
    unfold join
    rw [if_neg Bool.false_ne_true]
    rcases List.eq_nil_or_concat dir.pieces with hNil | ⟨front, last, hConcat⟩
    · simp [hNil, hs.2.1]
    · rw [List.concat_eq_append] at hConcat
      have hEmpty : (front ++ [last]).isEmpty = false := by simp
      simp only [hConcat, hEmpty, List.getLast?_concat, List.dropLast_concat, List.isEmpty_cons, Bool.false_eq_true,
        if_false, beq_iff_eq, Option.some.injEq]
      split
      · -- an empty piece at the end gives way to the name
        rename_i hLast
        cases front <;> simp [hLast, hs.2.1]
      · cases front <;> simp
  rw [parts_eq, parts_eq, hStart, steps_join dir rfl, hSteps, List.append_assoc]

end Inside

section Normal

theorem parts_normalize_ne_here (p : Path) : p.normalize.parts ≠ [here] := by
  have hStart : p.normalize.start ≠ [here] := by
    intro hStart
    obtain ⟨-, hDot⟩ := start_eq_here_iff.mp hStart
    rcases mem_pieces_normalize (List.mem_of_mem_head? hDot) with hUp | hPlain
    · exact absurd hUp (by decide)
    · exact hPlain.2.1 rfl
  rw [parts_eq]
  intro hHere
  rcases List.append_eq_singleton_iff.mp hHere with ⟨-, hSteps⟩ | ⟨hHere, -⟩
  · rcases mem_steps (hSteps ▸ List.mem_singleton_self here) with hUp | ⟨s, hName, -⟩
    · cases hUp
    · cases hName
  · exact hStart hHere

/-- All steps of a normal path but the last lead to all pieces but the last. -/
theorem foldl_dropLast_normalize (p : Path) :
    p.normalize.steps.dropLast.foldl resolveStep [] = p.landing.tail := by
  rw [steps_normalize, landing_eq]
  unfold remnant
  cases (bearing p.steps).kept with
  | nil => split <;> rfl
  | cons s rest =>
    rw [List.reverse_cons, List.map_append, ← List.append_assoc, List.map_singleton, List.dropLast_concat,
      List.foldl_append, foldl_resolveStep_names, List.reverse_reverse, List.cons_append, List.tail_cons]
    split <;> rfl

theorem steps_normalize_eq_nil_iff {p : Path} : p.normalize.steps = [] ↔ p.landing = [] := by
  rw [steps_normalize, landing_eq]
  simp [and_comm]

theorem parent?_normalize (p : Path) : p.normalize.parent?.map normalize =
    if p.landing = [] then none else some ⟨p.rooted, p.landing.tail.reverse⟩ := by
  obtain ⟨hNone, hSteps, -⟩ | ⟨dir, hDir, hRooted, hSteps, hHere⟩ := p.normalize.parent?_cases
  · rw [hNone, if_pos (steps_normalize_eq_nil_iff.mp hSteps), Option.map_none]
  · have hLanding : p.landing ≠ [] := fun hNil =>
      p.parts_normalize_ne_here (hHere (steps_normalize_eq_nil_iff.mpr hNil))
    rw [hDir, if_neg hLanding, Option.map_some, normalize_eq, landing, hSteps, foldl_dropLast_normalize,
      hRooted, rooted_normalize]

theorem pieces_normalize_eq_nil_iff {p : Path} : p.normalize.pieces = [] ↔ p.landing = [] := by
  rw [normalize_eq]
  exact List.reverse_eq_nil_iff

theorem getLast?_parts_of_steps {p : Path} {front : List Part} {part : Part} (h : p.steps = front ++ [part]) :
    p.parts.getLast? = some part := by
  rw [parts_eq, h, ← List.append_assoc, List.getLast?_concat]

/-- The last step of a path decides whether its directory is that of the normal form. -/
theorem landing_tail_iff {taken : List Piece} {part : Part} (hPart : part = up ∨ ∃ s, part = name s) :
    (resolveStep taken part ≠ [] ∧ (resolveStep taken part).tail = taken) ↔ (part = up → taken = []) := by
  rcases hPart with rfl | ⟨s, rfl⟩
  · cases taken with
    | nil => simp [resolveStep]
    | cons t rest =>
      have hLength : rest.tail ≠ t :: rest := fun hEq => by
        have hLength := congrArg List.length hEq
        rw [List.length_tail, List.length_cons] at hLength
        omega
      simp [resolveStep, hLength]
  · simp [resolveStep]

/-- A path lies in the same directory as its normal form, unless it is a dot or its last step takes
back a name. -/
theorem parent?_normalize_iff (p : Path) : p.normalize.parent?.map normalize = p.parent?.map normalize ↔
    p.parts ≠ [here] ∧
      (p.parts.getLast? = some up → ∀ dir, p.parent? = some dir → dir.normalize.pieces = []) := by
  rw [parent?_normalize]
  obtain ⟨hNone, hSteps, hParts⟩ | ⟨dir, hDir, hRooted, hSteps, hHere⟩ := p.parent?_cases
  · rw [landing, hSteps, hNone]
    simp [hParts]
  · rcases List.eq_nil_or_concat p.steps with hNil | ⟨front, part, hConcat⟩
    · rw [landing, hNil, hDir]
      simp [hHere hNil]
    · rw [List.concat_eq_append] at hConcat
      have hLast := getLast?_parts_of_steps hConcat
      have hPart : part = up ∨ ∃ s, part = name s := by
        rcases mem_steps (hConcat ▸ List.mem_append_right front (List.mem_singleton_self part)) with hUp | ⟨s, hName, -⟩
        · exact .inl hUp
        · exact .inr ⟨s, hName⟩
      have hParts : p.parts ≠ [here] := by
        intro hParts
        rw [hParts] at hLast
        rcases hPart with rfl | ⟨s, rfl⟩ <;> cases hLast
      have hLanding : p.landing = resolveStep dir.landing part := by
        rw [landing, landing, hSteps, hConcat, List.dropLast_concat, List.foldl_append]
        rfl
      rw [hDir, hLast, hLanding, Option.map_some, normalize_eq dir, hRooted]
      calc (if resolveStep dir.landing part = [] then none
            else some (Path.mk p.rooted (resolveStep dir.landing part).tail.reverse)) =
              some ⟨p.rooted, dir.landing.reverse⟩
        ↔ resolveStep dir.landing part ≠ [] ∧ (resolveStep dir.landing part).tail = dir.landing := by simp
      _ ↔ (part = up → dir.landing = []) := landing_tail_iff hPart
      _ ↔ _ := by simp [hParts, pieces_normalize_eq_nil_iff]

end Normal

end ModuleAtlas.Path
