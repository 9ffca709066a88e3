import ModuleAtlas.Path.Basic
import ModuleAtlas.Proofs.Path.Piece
import Mathlib.Data.List.Induction
import Mathlib.Tactic.Common

/-!
# Steps and normal paths

Apart from where it starts a path is a list of steps, each up or down to a name. Steps come to
a climb, which leads above the start, and the names below it that are not taken back. From a
place that is deep enough they lead just there. From nothing only one step of the climb can be
written: a second one takes back the first. So a path may be normalized before it is joined to
a directory exactly if it never climbs more than one step above its start.
-/

namespace ModuleAtlas

set_option autoImplicit false

namespace Part

def Plain (piece : Piece) : Prop := piece ≠ "" ∧ piece ≠ "." ∧ piece ≠ ".."

def isName : Part → Bool
  | name _ => true
  | _ => false

theorem ofPiece?_of_plain {piece : Piece} (h : Plain piece) : ofPiece? piece = some (name piece) := by
  obtain ⟨hEmpty, hDot, hUp⟩ := h
  simp [ofPiece?, hEmpty, hDot, hUp]

theorem ofPiece?_eq_some {piece : Piece} {part : Part} (h : ofPiece? piece = some part) :
    part = up ∨ ∃ s, part = name s ∧ Plain s := by
  unfold ofPiece? at h
  split at h
  · cases h
  · rename_i hVoid
    split at h
    · exact .inl (Option.some.inj h).symm
    · rename_i hUp
      simp only [Bool.or_eq_true, beq_iff_eq, not_or] at hVoid hUp
      exact .inr ⟨piece, (Option.some.inj h).symm, hVoid.1, hVoid.2, hUp⟩

theorem filterMap_ofPiece?_of_plain {pieces : List Piece} (h : ∀ s ∈ pieces, Plain s) :
    pieces.filterMap ofPiece? = pieces.map name := by
  induction pieces with
  | nil => rfl
  | cons s rest ih =>
    obtain ⟨hs, hRest⟩ := List.forall_mem_cons.mp h
    rw [List.filterMap_cons_some (ofPiece?_of_plain hs), ih hRest, List.map_cons]

end Part

namespace Path

open ModuleAtlas.Part

section Steps

def steps (p : Path) : List Part := p.pieces.filterMap ofPiece?

theorem mem_steps {p : Path} {part : Part} (h : part ∈ p.steps) : part = up ∨ ∃ s, part = name s ∧ Plain s := by
  obtain ⟨piece, -, hPiece⟩ := List.mem_filterMap.mp h
  exact ofPiece?_eq_some hPiece

def start (p : Path) : List Part :=
  if p.rooted then [root] else if p.pieces.head? == some (.ofString ".") then [here] else []

theorem parts_eq (p : Path) : p.parts = p.start ++ p.steps := rfl

/-- Where the steps of a path lead from nothing; the last piece comes first. -/
def landing (p : Path) : List Piece := p.steps.foldl resolveStep []

theorem normalize_eq (p : Path) : p.normalize = ⟨p.rooted, p.landing.reverse⟩ := by
  have hStart : p.start.foldl resolveStep [] = [] := by
    unfold start
    split
    · rfl
    · split <;> rfl
  rw [normalize, parts_eq, List.foldl_append, hStart, landing]

theorem join_of_rooted (p : Path) {q : Path} (h : q.rooted = true) : p.join q = q := by
  rw [join, if_pos h]

theorem rooted_join (p : Path) {q : Path} (h : q.rooted = false) : (p.join q).rooted = p.rooted := by
  unfold join
  rw [if_neg (by simp [h])]
  split
  · rfl
  · dsimp only
    split <;> rfl

theorem steps_join (p : Path) {q : Path} (h : q.rooted = false) : (p.join q).steps = p.steps ++ q.steps := by
  have hTail : (if q.pieces.isEmpty then [.ofString ""] else q.pieces).filterMap ofPiece? = q.steps := by
    split
    · rename_i hEmpty
      rw [steps, List.isEmpty_iff.mp hEmpty]
      rfl
    · rfl
  unfold join
  rw [if_neg (by simp [h])]
  split
  · rename_i hEmpty
    simp [steps, List.isEmpty_iff.mp hEmpty]
  · dsimp only
    split
    · rename_i hLast
      -- an empty piece at the end gives way, and stands for no step
      obtain ⟨front, hFront⟩ := List.getLast?_eq_some_iff.mp (eq_of_beq hLast)
      have hSteps : p.steps = front.filterMap ofPiece? := by simp [steps, hFront, ofPiece?]
      rw [hSteps, ← hTail, hFront, List.dropLast_concat, steps, List.filterMap_append]
    · rw [steps, List.filterMap_append, hTail]
      rfl

theorem normalize_join (p : Path) {q : Path} (h : q.rooted = false) :
    (p.join q).normalize = ⟨p.rooted, (q.steps.foldl resolveStep p.landing).reverse⟩ := by
  rw [normalize_eq, landing, steps_join p h, rooted_join p h, List.foldl_append, landing]

end Steps

section Bearing

/-- Where steps lead: above the start by `climb`, then down by the names `kept`, last first. -/
structure Bearing where
  climb : Nat
  kept : List Piece
  deriving DecidableEq, Repr

def Bearing.take (b : Bearing) : Part → Bearing
  | root | here => b
  | up =>
    match b.kept with
    | [] => ⟨b.climb + 1, []⟩
    | _ :: rest => ⟨b.climb, rest⟩
  | name s => ⟨b.climb, s :: b.kept⟩

def bearing (parts : List Part) : Bearing := parts.foldl Bearing.take ⟨0, []⟩

def ups (parts : List Part) : Nat := parts.count up

def downs (parts : List Part) : Nat := parts.countP isName

theorem bearing_concat (parts : List Part) (part : Part) :
    bearing (parts ++ [part]) = (bearing parts).take part := by
  simp [bearing]

theorem take_up (b : Bearing) : (b.kept = [] ∧ b.take up = ⟨b.climb + 1, []⟩) ∨
    ∃ s rest, b.kept = s :: rest ∧ b.take up = ⟨b.climb, rest⟩ := by
  cases hKept : b.kept with
  | nil => exact .inl ⟨rfl, by simp only [Bearing.take, hKept]⟩
  | cons s rest => exact .inr ⟨s, rest, rfl, by simp only [Bearing.take, hKept]⟩

theorem ups_concat (parts : List Part) (part : Part) :
    ups (parts ++ [part]) = ups parts + if part = up then 1 else 0 := by
  simp [ups, List.count_singleton]

theorem downs_concat (parts : List Part) (part : Part) :
    downs (parts ++ [part]) = downs parts + if part.isName then 1 else 0 := by
  simp [downs, List.countP_singleton]

/-- Each step up is part of the climb or takes back a name. -/
theorem ups_add_kept (parts : List Part) :
    ups parts + (bearing parts).kept.length = downs parts + (bearing parts).climb := by
  induction parts using List.reverseRecOn with
  | nil => rfl
  | append_singleton parts part ih =>
    rw [bearing_concat, ups_concat, downs_concat]
    cases part with
    | root | here => simpa [Bearing.take, isName] using ih
    | name s =>
      simp only [Bearing.take, isName, List.length_cons, reduceCtorEq, if_false, if_true]
      omega
    | up =>
      obtain ⟨hKept, hTake⟩ | ⟨s, rest, hKept, hTake⟩ := take_up (bearing parts)
      · rw [hKept, List.length_nil] at ih
        simp only [hTake, isName, List.length_nil, Bool.false_eq_true, if_false, if_true]
        omega
      · rw [hKept, List.length_cons] at ih
        simp only [hTake, isName, Bool.false_eq_true, if_false, if_true]
        omega

theorem climb_le_take (b : Bearing) (part : Part) : b.climb ≤ (b.take part).climb := by
  cases part with
  | root | here | name s => exact Nat.le_refl _
  | up =>
    obtain ⟨-, hTake⟩ | ⟨s, rest, -, hTake⟩ := take_up b
    · simp [hTake]
    · simp [hTake]

theorem climb_le_of_prefix {front parts : List Part} (h : front <+: parts) :
    (bearing front).climb ≤ (bearing parts).climb := by
  induction parts using List.reverseRecOn with
  | nil =>
    obtain rfl := List.prefix_nil.mp h
    exact Nat.le_refl _
  | append_singleton parts part ih =>
    rcases List.prefix_concat_iff.mp h with rfl | h
    · exact Nat.le_refl _
    · rw [bearing_concat]
      exact Nat.le_trans (ih h) (climb_le_take _ part)

/-- The climb is the most by which steps up outnumber names in a beginning. -/
theorem climb_le_iff {parts : List Part} {k : Nat} :
    (bearing parts).climb ≤ k ↔ ∀ front, front <+: parts → ups front ≤ downs front + k := by
  constructor
  · intro hk front hFront
    have hLe := climb_le_of_prefix hFront
    have hBalance := ups_add_kept front
    omega
  · intro h
    induction parts using List.reverseRecOn with
    | nil => exact Nat.zero_le k
    | append_singleton parts part ih =>
      have hBefore := ih fun front hFront => h front (hFront.trans (List.prefix_append parts [part]))
      have hWhole := h _ (List.prefix_refl _)
      have hBalance := ups_add_kept (parts ++ [part])
      rw [bearing_concat] at hBalance ⊢
      cases part with
      | root | here | name s => exact hBefore
      | up =>
        obtain ⟨-, hTake⟩ | ⟨s, rest, -, hTake⟩ := take_up (bearing parts)
        · rw [hTake, List.length_nil] at hBalance
          rw [hTake]
          omega
        · rwa [hTake]

theorem climb_le_ups (parts : List Part) : (bearing parts).climb ≤ ups parts := by
  refine climb_le_iff.mpr fun front hFront => ?_
  have hCount : ups front ≤ ups parts := hFront.sublist.count_le up
  omega

theorem mem_of_mem_kept {parts : List Part} {s : Piece} (h : s ∈ (bearing parts).kept) : name s ∈ parts := by
  induction parts using List.reverseRecOn with
  | nil => cases h
  | append_singleton parts part ih =>
    rw [bearing_concat] at h
    rw [List.mem_append, List.mem_singleton]
    cases part with
    | root | here => exact .inl (ih h)
    | name t =>
      rcases List.mem_cons.mp h with rfl | h
      · exact .inr rfl
      · exact .inl (ih h)
    | up =>
      obtain ⟨-, hTake⟩ | ⟨t, rest, hKept, hTake⟩ := take_up (bearing parts)
      · rw [hTake] at h
        cases h
      · rw [hTake] at h
        exact .inl (ih (hKept ▸ List.mem_cons_of_mem t h))

end Bearing

section Runs

/-- From a place that is deep enough, steps lead where their bearing says. -/
theorem foldl_resolveStep_of_climb_le {parts : List Part} {taken : List Piece}
    (h : (bearing parts).climb ≤ taken.length) :
    parts.foldl resolveStep taken = (bearing parts).kept ++ taken.drop (bearing parts).climb := by
  induction parts using List.reverseRecOn with
  | nil => rfl
  | append_singleton parts part ih =>
    rw [bearing_concat] at h ⊢
    rw [List.foldl_append, ih (Nat.le_trans (climb_le_take _ part) h), List.foldl_cons, List.foldl_nil]
    cases part with
    | root | here | name s => rfl
    | up =>
      obtain ⟨hKept, hTake⟩ | ⟨s, rest, hKept, hTake⟩ := take_up (bearing parts)
      · rw [hTake] at h
        rw [hKept, hTake, List.nil_append, List.nil_append, List.drop_eq_getElem_cons h, resolveStep]
      · rw [hKept, hTake, List.cons_append, resolveStep]

/-- What a climb from nothing leaves behind: two steps up cancel each other. -/
def remnant (climb : Nat) : List Piece := if climb % 2 = 1 then [".."] else []

theorem remnant_succ (climb : Nat) : remnant (climb + 1) = resolveStep (remnant climb) up := by
  rcases Nat.mod_two_eq_zero_or_one climb with h | h
  · rw [remnant, remnant, if_pos (by omega), if_neg (by omega), resolveStep]
  · rw [remnant, remnant, if_neg (by omega), if_pos h, resolveStep]

theorem foldl_resolveStep_nil (parts : List Part) :
    parts.foldl resolveStep [] = (bearing parts).kept ++ remnant (bearing parts).climb := by
  induction parts using List.reverseRecOn with
  | nil => rfl
  | append_singleton parts part ih =>
    rw [bearing_concat, List.foldl_append, ih, List.foldl_cons, List.foldl_nil]
    cases part with
    | root | here | name s => rfl
    | up =>
      obtain ⟨hKept, hTake⟩ | ⟨s, rest, hKept, hTake⟩ := take_up (bearing parts)
      · rw [hKept, hTake, List.nil_append, List.nil_append, remnant_succ]
      · rw [hKept, hTake, List.cons_append, resolveStep]

theorem foldl_resolveStep_names (names taken : List Piece) :
    (names.map name).foldl resolveStep taken = names.reverse ++ taken := by
  induction names generalizing taken with
  | nil => rfl
  | cons s names ih => simp [resolveStep, ih]

end Runs

section Normal

theorem landing_eq (p : Path) : p.landing = (bearing p.steps).kept ++ remnant (bearing p.steps).climb :=
  foldl_resolveStep_nil p.steps

theorem pieces_normalize (p : Path) :
    p.normalize.pieces = remnant (bearing p.steps).climb ++ (bearing p.steps).kept.reverse := by
  rw [normalize_eq, landing_eq, List.reverse_append]
  unfold remnant
  split <;> rfl

theorem plain_of_mem_kept {p : Path} {s : Piece} (h : s ∈ (bearing p.steps).kept) : Plain s := by
  rcases mem_steps (mem_of_mem_kept h) with hUp | ⟨t, hName, ht⟩
  · cases hUp
  · cases hName
    exact ht

theorem mem_pieces_normalize {p : Path} {piece : Piece} (h : piece ∈ p.normalize.pieces) :
    piece = ".." ∨ Plain piece := by
  rw [pieces_normalize, List.mem_append, List.mem_reverse] at h
  rcases h with hUp | hName
  · unfold remnant at hUp
    split at hUp
    · exact .inl (List.mem_singleton.mp hUp)
    · cases hUp
  · exact .inr (plain_of_mem_kept hName)

theorem steps_normalize (p : Path) : p.normalize.steps =
    (remnant (bearing p.steps).climb).map (fun _ => up) ++ (bearing p.steps).kept.reverse.map name := by
  have hNames : ∀ s ∈ (bearing p.steps).kept.reverse, Plain s :=
    fun s hs => plain_of_mem_kept (List.mem_reverse.mp hs)
  rw [steps, pieces_normalize, List.filterMap_append, filterMap_ofPiece?_of_plain hNames]
  congr 1
  unfold remnant
  split <;> rfl

theorem foldl_steps_normalize (p : Path) (taken : List Piece) :
    p.normalize.steps.foldl resolveStep taken =
      (bearing p.steps).kept ++ if (bearing p.steps).climb % 2 = 1 then resolveStep taken up else taken := by
  rw [steps_normalize, List.foldl_append, foldl_resolveStep_names, List.reverse_reverse]
  unfold remnant
  split <;> rfl

theorem landing_normalize (p : Path) : p.normalize.landing = p.landing := by
  rw [landing, foldl_steps_normalize, landing_eq]
  rfl

theorem rooted_normalize (p : Path) : p.normalize.rooted = p.rooted := rfl

theorem normalize_normalize (p : Path) : p.normalize.normalize = p.normalize := by
  rw [normalize_eq, landing_normalize, rooted_normalize, ← normalize_eq]

/-- A path may be normalized before it is continued. -/
theorem normalize_join_normalize (p q : Path) : (p.normalize.join q).normalize = (p.join q).normalize := by
  cases h : q.rooted with
  | true => rw [join_of_rooted _ h, join_of_rooted _ h]
  | false => rw [normalize_join _ h, normalize_join _ h, landing_normalize, rooted_normalize]

theorem bearing_parts (p : Path) : bearing p.parts = bearing p.steps := by
  rw [parts_eq, bearing, List.foldl_append]
  unfold start
  split
  · rfl
  · split <;> rfl

theorem length_landing {p : Path} (h : up ∉ p.parts) : p.landing.length = downs p.parts := by
  have hUps : ups p.parts = 0 := List.count_eq_zero.mpr h
  have hClimb := climb_le_ups p.parts
  have hBalance := ups_add_kept p.parts
  have hZero : (bearing p.parts).climb = 0 := by omega
  rw [landing_eq, ← bearing_parts, hZero, List.length_append]
  simp only [remnant, Nat.zero_mod, Nat.zero_ne_one, if_false, List.length_nil]
  omega

theorem resolveStep_up {taken : List Piece} (h : 0 < taken.length) : resolveStep taken up = taken.drop 1 := by
  cases taken with
  | nil => cases h
  | cons s rest => rfl

end Normal

/-- Below a directory that is deep enough, normalizing a path first leads to the same place exactly
if the path never climbs more than one step above its start. -/
theorem normalize_below_iff {d p : Path} (hd : up ∉ d.parts) (hp : p.rooted = false)
    (hDeep : ups p.parts ≤ downs d.parts) :
    (d.join p.normalize).normalize = (d.join p).normalize ↔
      ∀ front, front <+: p.parts → ups front ≤ downs front + 1 := by
  have hLength := length_landing hd
  have hClimb := climb_le_ups p.parts
  rw [normalize_join d (p.rooted_normalize.trans hp), normalize_join d hp, foldl_steps_normalize,
    ← climb_le_iff, ← bearing_parts]
  generalize d.landing = taken at hLength ⊢
  rw [foldl_resolveStep_of_climb_le (by rw [← bearing_parts]; omega), ← bearing_parts]
  generalize bearing p.parts = b at hClimb ⊢
  -- both sides end in the names that are kept; they differ in how much of the directory is left
  have hFirst : (if b.climb % 2 = 1 then resolveStep taken up else taken) = taken.drop (b.climb % 2) := by
    split
    · rename_i hOdd
      rw [hOdd, resolveStep_up (by omega)]
    · rename_i hEven
      rw [show b.climb % 2 = 0 by omega, List.drop_zero]
  rw [hFirst, mk.injEq, List.reverse_inj, List.append_cancel_left_eq]
  constructor
  · rintro ⟨-, hDrop⟩
    have hLeft := congrArg List.length hDrop
    rw [List.length_drop, List.length_drop] at hLeft
    omega
  · intro hOne
    rw [Nat.mod_eq_of_lt (by omega)]
    exact ⟨rfl, rfl⟩

/-- A path that climbs one step after coming back from a name. -/
theorem single_climb_below :
    let d := ofString "/a/b/c"
    let p := ofString "./x/../../y/./z/.."
    d.parts = [root, name "a", name "b", name "c"] ∧ up ∉ d.parts ∧ p.rooted = false ∧
    ups p.parts ≤ downs d.parts ∧ (d.join p.normalize).normalize = (d.join p).normalize := by
  refine ⟨by decide, by decide, by decide, by decide, ?_⟩
  exact (normalize_below_iff (by decide) (by decide) (by decide)).mpr (climb_le_iff.mp (by decide))

/-- Two steps up cancel each other, so a path that climbs two steps leads astray once it is normalized. -/
theorem double_climb_astray :
    let d := ofString "/a/b"
    let p := ofString "../../x"
    d.parts = [root, name "a", name "b"] ∧ p.rooted = false ∧ ups p.parts = 2 ∧
    p.normalize = ofString "x" ∧ (d.join p.normalize).normalize = ofString "/a/b/x" ∧
    (d.join p).normalize = ofString "/x" ∧ (d.join p.normalize).normalize ≠ (d.join p).normalize := by
  decide

end Path

end ModuleAtlas
