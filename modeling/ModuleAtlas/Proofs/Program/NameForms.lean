import ModuleAtlas.Proofs.Path.Slashes
import ModuleAtlas.Proofs.Program.Candidates

/-!
# Forms of module names

A relative module name leads from the directory of the importing file along the steps of its
text, one that starts at the root from there, and one that starts with an alias along the steps
of the target and of what follows the alias. So names of the last two forms may be written
relative to a file in the root, and slashes where the texts meet make no difference.
-/

namespace ModuleAtlas

set_option autoImplicit false

namespace Text

theorem after?_append (start rest : String) : after? start (start ++ rest) = some rest := by
  simp [after?, String.ofList_toList]

theorem startsWith_iff {start text : String} : startsWith start text = true ↔ ∃ rest, text = start ++ rest := by
  rw [startsWith, List.isPrefixOf_iff_prefix]
  constructor
  · rintro ⟨rest, hRest⟩
    exact ⟨String.ofList rest, by rw [← String.toList_inj, ← hRest]; simp⟩
  · rintro ⟨rest, rfl⟩
    exact ⟨rest.toList, by simp⟩

end Text

namespace Resolver

open ModuleAtlas.Path ModuleAtlas.Part

section Longest

variable {aliases : List Alias} {name : String} {a b : Alias}

/-- The alias that a module name starts with, all others that it starts with being shorter. -/
structure Longest (aliases : List Alias) (name : String) (a : Alias) : Prop where
  mem : a ∈ aliases
  starts : Text.startsWith a.start name = true
  longest : ∀ b ∈ aliases, Text.startsWith b.start name = true → b = a ∨ b.start.length < a.start.length

theorem prefix_of_startsWith (ha : Text.startsWith a.start name = true) (hb : Text.startsWith b.start name = true)
    (h : b.start.length ≤ a.start.length) : ∃ rest, a.start = b.start ++ rest := by
  apply Text.startsWith_iff.mp
  rw [Text.startsWith, List.isPrefixOf_iff_prefix] at ha hb ⊢
  exact List.prefix_of_prefix_length_le hb ha h

theorem utf8ByteSize_lt (ha : Text.startsWith a.start name = true) (hb : Text.startsWith b.start name = true)
    (h : b.start.length < a.start.length) : b.start.utf8ByteSize < a.start.utf8ByteSize := by
  obtain ⟨rest, hRest⟩ := prefix_of_startsWith ha hb h.le
  have hNe : rest ≠ "" := by
    rintro rfl
    simp [hRest] at h
  rw [hRest, String.utf8ByteSize_append]
  exact Nat.lt_add_of_pos_right (Nat.pos_of_ne_zero fun hZero => hNe (String.utf8ByteSize_eq_zero_iff.mp hZero))

theorem foldl_longer_spec (xs : List Alias) : (xs = [] ∧ xs.foldl longer none = none) ∨
    ∃ a ∈ xs, xs.foldl longer none = some a ∧ ∀ b ∈ xs, b.start.utf8ByteSize ≤ a.start.utf8ByteSize := by
  induction xs using List.reverseRecOn with
  | nil => exact .inl ⟨rfl, rfl⟩
  | append_singleton xs x ih =>
    rw [List.foldl_concat]
    refine .inr ?_
    obtain ⟨rfl, hNone⟩ | ⟨a, ha, hSome, hLe⟩ := ih
    · exact ⟨x, by simp, by rw [hNone, longer], by simp⟩
    · simp only [hSome, longer, List.mem_append, List.mem_singleton]
      by_cases hx : a.start.utf8ByteSize ≤ x.start.utf8ByteSize
      · refine ⟨x, .inr rfl, by rw [if_pos hx], ?_⟩
        rintro b (hb | rfl)
        · exact (hLe b hb).trans hx
        · exact le_rfl
      · refine ⟨a, .inl ha, by rw [if_neg hx], ?_⟩
        rintro b (hb | rfl)
        · exact hLe b hb
        · exact (Nat.lt_of_not_le hx).le

theorem alias?_spec (aliases : List Alias) (name : String) :
    (alias? aliases name = none ∧ ∀ a ∈ aliases, Text.startsWith a.start name = false) ∨
    ∃ a ∈ aliases, alias? aliases name = some a ∧ Text.startsWith a.start name = true ∧
      ∀ b ∈ aliases, Text.startsWith b.start name = true → b.start.utf8ByteSize ≤ a.start.utf8ByteSize := by
  obtain ⟨hNil, hNone⟩ | ⟨a, ha, hSome, hLe⟩ := foldl_longer_spec (aliases.filter fun a => Text.startsWith a.start name)
  · exact .inl ⟨hNone, by simpa [List.filter_eq_nil_iff] using hNil⟩
  · obtain ⟨ha, hStarts⟩ := List.mem_filter.mp ha
    exact .inr ⟨a, ha, hSome, hStarts, fun b hb hbStarts => hLe b (List.mem_filter.mpr ⟨hb, hbStarts⟩)⟩

theorem Longest.alias?_eq (h : Longest aliases name a) : alias? aliases name = some a := by
  obtain ⟨-, hNone⟩ | ⟨c, hc, hSome, hStarts, hLe⟩ := alias?_spec aliases name
  · exact absurd h.starts (by simp [hNone a h.mem])
  · rcases h.longest c hc hStarts with rfl | hShorter
    · exact hSome
    · have hLt := utf8ByteSize_lt h.starts hStarts hShorter
      exact absurd (hLe a h.mem h.starts) (Nat.not_le_of_lt hLt)

/-- Where aliases differ in their starts, one of those that a module name starts with is the longest. -/
theorem exists_longest (hDistinct : (aliases.map Alias.start).Nodup)
    (h : ∃ a ∈ aliases, Text.startsWith a.start name = true) : ∃ a, Longest aliases name a := by
  obtain ⟨-, hNone⟩ | ⟨a, ha, -, hStarts, hLe⟩ := alias?_spec aliases name
  · obtain ⟨a, ha, hStarts⟩ := h
    rw [hNone a ha] at hStarts
    cases hStarts
  · refine ⟨a, ha, hStarts, fun b hb hbStarts => ?_⟩
    rw [or_iff_not_imp_right, Nat.not_lt]
    intro hLength
    obtain ⟨rest, hRest⟩ := prefix_of_startsWith hbStarts hStarts hLength
    have hSize := hLe b hb hbStarts
    rw [hRest, String.utf8ByteSize_append] at hSize
    have hEmpty : rest = "" := String.utf8ByteSize_eq_zero_iff.mp (by omega)
    rw [hEmpty, String.append_empty] at hRest
    exact List.inj_on_of_nodup_map hDistinct hb ha hRest

end Longest

section Forms

variable {r : Resolver} {importer : Path} {rest : String} {a : Alias}

theorem rooted_of_isRelative {name : String} (h : isRelative name = true) : (Path.ofString name).rooted = false := by
  have hDot : ∀ start : String, start.toList.head? = some '.' → Text.startsWith start name = true →
      (Path.ofString name).rooted = false := by
    intro start hStart hName
    obtain ⟨rest, rfl⟩ := Text.startsWith_iff.mp hName
    rw [rooted_ofString, String.toList_append, List.head?_append, hStart]
    rfl
  simp only [isRelative, Bool.or_eq_true, beq_iff_eq] at h
  rcases h with ((h | h) | rfl) | rfl
  · exact hDot "./" (by decide) h
  · exact hDot "../" (by decide) h
  · decide
  · decide

def inRoot (r : Resolver) : Path := r.root.join (.ofString "x.ts")

theorem base?_inRoot {name : String} (h : isRelative name = true) :
    r.base? r.inRoot name = some (r.root.reach (Path.ofString name).steps) := by
  obtain ⟨dir, hDir, hReach⟩ := r.root.parent?_join_name (q := .ofString "x.ts") (s := "x.ts") (by decide) (by decide)
  rw [base?, if_pos h, inRoot, hDir, Option.map_some, normalize_join_eq_reach _ (rooted_of_isRelative h), hReach]

theorem base?_slash (h : Text.startsWith "/" rest = false) :
    r.base? importer ("/" ++ rest) = some (r.root.reach (Path.ofString rest).steps) := by
  have hRelative : isRelative ("/" ++ rest) = false := by
    rw [Bool.eq_false_iff]
    intro hRelative
    have hRooted := rooted_of_isRelative hRelative
    rw [rooted_ofString] at hRooted
    simp at hRooted
  have hRooted : (Path.ofString rest).rooted = false := by
    rw [rooted_ofString, beq_eq_false_iff_ne]
    intro hSlash
    obtain ⟨chars, hChars⟩ := List.head?_eq_some_iff.mp hSlash
    simp [Text.startsWith, hChars] at h
  simp only [base?, hRelative, Text.after?_append, normalize_join_eq_reach _ hRooted, Bool.false_eq_true, if_false]

theorem base?_alias (h : ¬ Pointed (a.start ++ rest)) (ha : Longest r.aliases (a.start ++ rest) a) :
    r.base? importer (a.start ++ rest) =
      some (r.root.reach ((Path.ofString a.target).steps ++ (Path.ofString rest).steps)) := by
  rw [pointed_iff, not_or] at h
  have hSlash : Text.after? "/" (a.start ++ rest) = none := if_neg h.2
  simp only [base?, h.1, hSlash, ha.alias?_eq, Bool.false_eq_true, if_false, Option.map_some, Text.after?_append,
    Option.getD_some, unslashed]
  rw [normalize_join_join _ (rooted_trimStart _) (rooted_trimStart _), steps_trimStart, steps_trimStart]

theorem steps_dotted (text : String) : (Path.ofString ("./" ++ text)).steps = (Path.ofString text).steps :=
  steps_slash "." text

theorem isRelative_dotted (text : String) : isRelative ("./" ++ text) = true := by
  have hStarts : Text.startsWith "./" ("./" ++ text) = true := Text.startsWith_iff.mpr ⟨text, rfl⟩
  rw [isRelative, hStarts]
  rfl

theorem resolve_congr {r s : Resolver} {p q : Path} {name other : String} (hFiles : r.files = s.files)
    (h : r.base? p name = s.base? q other) : r.resolve p name = s.resolve q other := by
  rw [resolve, resolve, h, hFiles]

end Forms

/-- Names that start at the root or with an alias can be written relative to a file in the root. -/
structure HasRelativeForms (r : Resolver) : Prop where
  slashed : ∀ importer rest, Text.startsWith "/" rest = false →
    r.resolve importer ("/" ++ rest) = r.resolve (r.root.join (.ofString "x.ts")) ("./" ++ rest)
  aliased : ∀ importer a rest, ¬ Pointed (a.start ++ rest) → Longest r.aliases (a.start ++ rest) a →
    r.resolve importer (a.start ++ rest) =
      r.resolve (r.root.join (.ofString "x.ts")) ("./" ++ unslashed a.target ++ "/" ++ unslashed rest)
  exists_longest : (r.aliases.map Alias.start).Nodup → ∀ name, (∃ a ∈ r.aliases, Text.startsWith a.start name = true) →
    ∃ a rest, name = a.start ++ rest ∧ Longest r.aliases name a
  /-- Slashes around the target, at the end of the start or before the rest make no difference. -/
  seam : ∀ aliases importer importer' a b rest rest', ¬ Pointed (a.start ++ rest) → ¬ Pointed (b.start ++ rest') →
    Longest r.aliases (a.start ++ rest) a → Longest aliases (b.start ++ rest') b →
    Text.trim (· == '/') a.target = Text.trim (· == '/') b.target → unslashed rest = unslashed rest' →
    r.resolve importer (a.start ++ rest) = { r with aliases }.resolve importer' (b.start ++ rest')

theorem names_have_relative_forms (r : Resolver) : HasRelativeForms r := by
  constructor
  case slashed =>
    intro importer rest hRest
    refine resolve_congr rfl ?_
    rw [base?_slash hRest, ← inRoot, base?_inRoot (isRelative_dotted rest), steps_dotted]
  case aliased =>
    intro importer a rest hName hLongest
    refine resolve_congr rfl ?_
    have hText : "./" ++ unslashed a.target ++ "/" ++ unslashed rest =
        "./" ++ (unslashed a.target ++ "/" ++ unslashed rest) := by simp [String.append_assoc]
    rw [base?_alias hName hLongest, ← inRoot, hText, base?_inRoot (isRelative_dotted _), steps_dotted, steps_slash,
      unslashed, unslashed, steps_trimStart, steps_trimStart]
  case exists_longest =>
    intro hDistinct name hStarts
    obtain ⟨a, ha⟩ := Resolver.exists_longest hDistinct hStarts
    obtain ⟨rest, hRest⟩ := Text.startsWith_iff.mp ha.starts
    exact ⟨a, rest, hRest, ha⟩
  case seam =>
    intro aliases importer importer' a b rest rest' hName hName' ha hb hTarget hRest
    refine resolve_congr rfl ?_
    rw [base?_alias hName ha, base?_alias (r := { r with aliases }) hName' hb, ← steps_trim a.target, hTarget,
      steps_trim, ← steps_trimStart rest, ← steps_trimStart rest']
    rw [unslashed, unslashed] at hRest
    rw [hRest]

example :
    let found (start target name : String) :=
      Resolver.resolve ⟨.ofString "/app", [.ofString "/app/lib/ui/index.tsx"], [⟨start, target⟩]⟩
        (.ofString "/app/main.ts") name
    found "@" "/lib/" "@ui" = some (.ofString "/app/lib/ui/index.tsx") ∧
    found "@" "/lib/" "@//ui" = found "@" "lib" "@ui" ∧ found "@/" "//lib" "@/ui" = found "@" "lib" "@ui" := by
  decide

end Resolver

end ModuleAtlas
