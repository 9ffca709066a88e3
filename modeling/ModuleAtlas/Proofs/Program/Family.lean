import ModuleAtlas.Program.Family
import ModuleAtlas.Proofs.Program.Order
import ModuleAtlas.Proofs.Collection
import Mathlib.Data.Finset.Card
import Mathlib.Data.List.TakeWhile

/-!
# Split families

Two names of a family in two files make it split, and each split family is reported once. Names
and families come in the order of the first entity, by path and then by place, that shows them.
-/

namespace ModuleAtlas

set_option autoImplicit false

/-- A name starts with a word: a capital, then small letters and digits as far as they go. -/
structure LeadingWord (name word : String) (c : Char) (body rest : List Char) : Prop where
  name_eq : name.toList = c :: (body ++ rest)
  word_eq : word.toList = c :: body
  capital : Letter.isUpper c = true
  small : ∀ d ∈ body, (Letter.isLower d || d.isDigit) = true
  longest : ∀ d ∈ rest.head?, (Letter.isLower d || d.isDigit) = false

theorem capitalizedWord?_eq_some_iff {name word : String} :
    capitalizedWord? name = some word ↔ ∃ c body rest, LeadingWord name word c body rest := by
  unfold capitalizedWord?
  constructor
  · intro h
    split at h
    case h_1 => cases h
    case h_2 c rest hName =>
      obtain ⟨hCapital, hWord⟩ := Option.ite_none_right_eq_some.mp h
      cases hWord
      refine ⟨c, _, rest.dropWhile fun d => Letter.isLower d || d.isDigit, ?_, String.toList_ofList,
        hCapital, ?_, ?_⟩
      · rw [hName, List.takeWhile_append_dropWhile]
      · exact fun d hd => List.mem_takeWhile_imp (p := fun d => Letter.isLower d || d.isDigit) hd
      · intro d hd
        have hHead := List.head?_dropWhile_not (fun d => Letter.isLower d || d.isDigit) rest
        rw [Option.mem_def.mp hd] at hHead
        exact hHead
  · rintro ⟨c, body, rest, h⟩
    have hRest : rest.takeWhile (fun d => Letter.isLower d || d.isDigit) = [] := by
      cases rest with
      | nil => rfl
      | cons d rest => exact List.takeWhile_cons_of_neg (by simp [h.longest d rfl])
    have hBody : (body ++ rest).takeWhile (fun d => Letter.isLower d || d.isDigit) = body := by
      rw [List.takeWhile_append_of_pos h.small, hRest, List.append_nil]
    simp only [h.name_eq, h.capital, if_true, hBody, ← h.word_eq, String.ofList_toList]

theorem one_lt_length_iff {α : Type} [DecidableEq α] {xs : List α} (h : xs.Nodup) :
    1 < xs.length ↔ ∃ a ∈ xs, ∃ b ∈ xs, a ≠ b := by
  rw [← List.toFinset_card_of_nodup h]
  simpa using Finset.one_lt_card (s := xs.toFinset)

namespace SourceFile

def Declares (f : SourceFile) (name : String) : Prop := ∃ e ∈ f.entities, e.name = name

end SourceFile

namespace Program

variable {p : Program} {word name : String}

/-- The names of a family, the bare word left out. -/
structure Member (p : Program) (word name : String) : Prop where
  declared : ∃ f ∈ p.files, f.Declares name
  headed : capitalizedWord? name = some word
  longer : name ≠ word

def Houses (p : Program) (word : String) (path : Path) : Prop :=
  ∃ f ∈ p.files, f.path = path ∧ ∃ name, p.Member word name ∧ f.Declares name

structure Split (p : Program) (word : String) : Prop where
  members : ∃ m n, p.Member word m ∧ p.Member word n ∧ m ≠ n
  files : ∃ a b, p.Houses word a ∧ p.Houses word b ∧ a ≠ b

/-- Some entity with a name of the first sort comes before all those with one of the second. -/
def SeenFirst (p : Program) (first second : String → Prop) : Prop :=
  ∃ x ∈ p.each SourceFile.entities, first x.2.name ∧
    ∀ y ∈ p.each SourceFile.entities, second y.2.name → Precedes Entity.span x y

def entityNames (p : Program) : List String := Text.firstSeen (p.declarations.map Prod.fst)

theorem declarations_map_fst (p : Program) :
    p.declarations.map Prod.fst = (p.each SourceFile.entities).map fun x => x.2.name := by
  simp [declarations, each, List.map_flatMap, Function.comp_def]

theorem mem_entityNames : name ∈ p.entityNames ↔ ∃ f ∈ p.files, f.Declares name := by
  rw [entityNames, (Text.firstSeen_spec _).mem_iff, declarations_map_fst, List.mem_map]
  constructor
  · rintro ⟨x, hx, rfl⟩
    obtain ⟨hf, he⟩ := mem_each.mp hx
    exact ⟨x.1, hf, x.2, he, rfl⟩
  · rintro ⟨f, hf, e, he, rfl⟩
    exact ⟨(f, e), mem_each.mpr ⟨hf, he⟩, rfl⟩

theorem mem_familyOf : name ∈ familyOf p.entityNames word ↔ p.Member word name := by
  simp only [familyOf, List.mem_filter, mem_entityNames, Bool.and_eq_true, bne_iff_ne, beq_iff_eq]
  constructor
  · rintro ⟨hDeclared, hLonger, hWord⟩
    exact ⟨hDeclared, hWord, hLonger⟩
  · rintro ⟨hDeclared, hWord, hLonger⟩
    exact ⟨hDeclared, hLonger, hWord⟩

theorem mem_filesDeclaring {path : Path} :
    path ∈ p.filesDeclaring (familyOf p.entityNames word) ↔ p.Houses word path := by
  simp only [filesDeclaring, List.mem_map, List.mem_filter, List.any_eq_true, List.contains_iff_mem, mem_familyOf]
  constructor
  · rintro ⟨f, ⟨hf, e, he, hMember⟩, rfl⟩
    exact ⟨f, hf, rfl, e.name, hMember, e, he, rfl⟩
  · rintro ⟨f, hf, rfl, _, hMember, e, he, rfl⟩
    exact ⟨f, ⟨hf, e, he, hMember⟩, rfl⟩

theorem nodup_familyOf (p : Program) (word : String) : (familyOf p.entityNames word).Nodup :=
  (Text.firstSeen_spec _).nodup.filter _

theorem Read.ordered_filesDeclaring (h : p.Read) (names : List String) :
    (p.filesDeclaring names).Pairwise fun a b => Path.cmp a b = .lt :=
  List.pairwise_map.mpr (h.ordered.filter _)

theorem Read.nodup_filesDeclaring (h : p.Read) (names : List String) : (p.filesDeclaring names).Nodup :=
  h.paths_nodup.sublist (List.filter_sublist.map _)

theorem Read.pairwise_entities (h : p.Read) :
    (p.each SourceFile.entities).Pairwise (Precedes Entity.span) :=
  h.pairwise_each fun _ hf => h.pairwise_sublist hf (List.Sublist.refl _)

theorem Read.pairwise_entityNames (h : p.Read) : p.entityNames.Pairwise fun a b => p.SeenFirst (· = a) (· = b) := by
  have hAhead := Text.firstSeen_ahead (fun x => some x.2.name) h.pairwise_entities
  rw [entityNames, declarations_map_fst]
  simp only [List.filterMap_eq_map', Option.some.injEq] at hAhead
  exact hAhead

def words (p : Program) : List String := Text.firstSeen (p.entityNames.filterMap capitalizedWord?)

theorem Read.pairwise_words (h : p.Read) :
    p.words.Pairwise fun a b => p.SeenFirst (capitalizedWord? · = some a) (capitalizedWord? · = some b) := by
  have hAhead := Text.firstSeen_ahead (fun x => capitalizedWord? x.2.name) h.pairwise_entities
  rw [words, entityNames, Text.firstSeen_filterMap, declarations_map_fst, List.filterMap_map]
  exact hAhead

theorem Member.mem_words (h : p.Member word name) : word ∈ p.words :=
  ((Text.firstSeen_spec _).mem_iff word).mpr
    (List.mem_filterMap.mpr ⟨name, mem_entityNames.mpr h.declared, h.headed⟩)

theorem Read.split_iff (h : p.Read) :
    p.Split word ↔ 1 < (familyOf p.entityNames word).length ∧
      1 < (p.filesDeclaring (familyOf p.entityNames word)).length := by
  rw [one_lt_length_iff (nodup_familyOf p word), one_lt_length_iff (h.nodup_filesDeclaring _)]
  simp only [mem_familyOf, mem_filesDeclaring]
  constructor
  · rintro ⟨⟨m, n, hm, hn, hmn⟩, a, b, ha, hb, hab⟩
    exact ⟨⟨m, hm, n, hn, hmn⟩, a, ha, b, hb, hab⟩
  · rintro ⟨⟨m, hm, n, hn, hmn⟩, a, ha, b, hb, hab⟩
    exact ⟨⟨m, n, hm, hn, hmn⟩, a, b, ha, hb, hab⟩

def family (p : Program) (word : String) : SplitFamily :=
  ⟨word, familyOf p.entityNames word, p.filesDeclaring (familyOf p.entityNames word)⟩

def report? (p : Program) (word : String) : Option SplitFamily :=
  if (p.family word).entities.length < 2 || (p.family word).files.length < 2 then none else some (p.family word)

theorem splitFamilies_eq (p : Program) : p.splitFamilies = p.words.filterMap p.report? := rfl

theorem Read.report?_eq_some_iff (h : p.Read) {s : SplitFamily} :
    p.report? word = some s ↔ p.Split word ∧ p.family word = s := by
  rw [h.split_iff, report?, Option.ite_none_left_eq_some, Bool.or_eq_true_iff, decide_eq_true_iff,
    decide_eq_true_iff, Option.some.injEq, not_or, Nat.not_lt, Nat.not_lt]
  rfl

theorem Read.mem_splitFamilies (h : p.Read) {s : SplitFamily} :
    s ∈ p.splitFamilies ↔ ∃ word, p.Split word ∧ p.family word = s := by
  rw [splitFamilies_eq, List.mem_filterMap]
  constructor
  · rintro ⟨word, -, hReport⟩
    exact ⟨word, h.report?_eq_some_iff.mp hReport⟩
  · rintro ⟨word, hSplit, hFamily⟩
    obtain ⟨_, _, hMember, -⟩ := hSplit.members
    exact ⟨word, hMember.mem_words, h.report?_eq_some_iff.mpr ⟨hSplit, hFamily⟩⟩

theorem Read.pairwise_splitFamilies (h : p.Read) {r : String → String → Prop} (hr : p.words.Pairwise r) :
    p.splitFamilies.Pairwise fun s t => r s.word t.word := by
  refine hr.filterMap _ fun a b hab s hs t ht => ?_
  obtain ⟨-, rfl⟩ := h.report?_eq_some_iff.mp hs
  obtain ⟨-, rfl⟩ := h.report?_eq_some_iff.mp ht
  exact hab

/-- What the report of split families says. -/
structure ReportsSplit (p : Program) : Prop where
  word_iff : ∀ name word, capitalizedWord? name = some word ↔ ∃ c body rest, LeadingWord name word c body rest
  reported_iff : ∀ word, (∃ s ∈ p.splitFamilies, s.word = word) ↔ p.Split word
  once : (p.splitFamilies.map SplitFamily.word).Nodup
  entities_iff : ∀ s ∈ p.splitFamilies, ∀ name, name ∈ s.entities ↔ p.Member s.word name
  entities_nodup : ∀ s ∈ p.splitFamilies, s.entities.Nodup
  entities_ordered : ∀ s ∈ p.splitFamilies, s.entities.Pairwise fun a b => p.SeenFirst (· = a) (· = b)
  files_iff : ∀ s ∈ p.splitFamilies, ∀ path, path ∈ s.files ↔ p.Houses s.word path
  files_ordered : ∀ s ∈ p.splitFamilies, s.files.Pairwise fun a b => Path.cmp a b = .lt
  ordered : p.splitFamilies.Pairwise fun s t =>
    p.SeenFirst (capitalizedWord? · = some s.word) (capitalizedWord? · = some t.word)
  apart : ∀ s ∈ p.splitFamilies, ∀ t ∈ p.splitFamilies,
    ∀ name, name ∈ s.entities → name ∈ t.entities → s = t

theorem splitFamilies_reports_split (h : p.Read) : p.ReportsSplit := by
  constructor
  case word_iff => exact fun name word => capitalizedWord?_eq_some_iff
  case reported_iff =>
    intro word
    constructor
    · rintro ⟨s, hs, rfl⟩
      obtain ⟨_, hSplit, rfl⟩ := h.mem_splitFamilies.mp hs
      exact hSplit
    · intro hSplit
      exact ⟨p.family word, h.mem_splitFamilies.mpr ⟨word, hSplit, rfl⟩, rfl⟩
  case once => exact List.pairwise_map.mpr (h.pairwise_splitFamilies (Text.firstSeen_spec _).nodup)
  case ordered => exact h.pairwise_splitFamilies h.pairwise_words
  case apart =>
    intro s hs t ht name hName hName'
    obtain ⟨_, -, rfl⟩ := h.mem_splitFamilies.mp hs
    obtain ⟨_, -, rfl⟩ := h.mem_splitFamilies.mp ht
    have hEq := (mem_familyOf.mp hName).headed.symm.trans (mem_familyOf.mp hName').headed
    rw [Option.some.inj hEq]
  all_goals
    intro s hs
    obtain ⟨word, -, rfl⟩ := h.mem_splitFamilies.mp hs
  case entities_iff => exact fun name => mem_familyOf
  case entities_nodup => exact nodup_familyOf p word
  case entities_ordered => exact h.pairwise_entityNames.filter _
  case files_iff => exact fun path => mem_filesDeclaring
  case files_ordered => exact h.ordered_filesDeclaring _

/-- A family that its bare word shows first, and one whose names are all in one file. -/
def spread : Program :=
  .ofSources (.ofString "/app")
    ([(.ofString "/app/b.js", "const UserCard = 1;\n"),
      (.ofString "/app/a.js", "const User = 1, CartA = 2, CartB = 3, UserStore = 4;\n")].map
        fun t => (t.1, .ofString t.2)) []

set_option maxRecDepth 100000 in
theorem spread_reported_split : spread.Read ∧
    spread.splitFamilies =
      [⟨"User", ["UserStore", "UserCard"], [.ofString "/app/a.js", .ofString "/app/b.js"]⟩] ∧
    spread.ReportsSplit :=
  ⟨read_ofSources _ _ _, by decide +kernel, splitFamilies_reports_split (read_ofSources _ _ _)⟩

end Program

end ModuleAtlas
