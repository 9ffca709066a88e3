import ModuleAtlas.Proofs.Graph.Kinship
import ModuleAtlas.Proofs.Path.Solid
import ModuleAtlas.Proofs.Tree.Lookup

/-!
# What is discovered

The paths of a run are those of the regular files below its root that are sources and pass the
patterns, in path order. So more patterns that leave files out never add a file, and more patterns
of which a file has to match one never take one away if there were some before.
-/

namespace ModuleAtlas

set_option autoImplicit false

namespace Path

section Sets

/-- Put a path before others that follow it in order; one with the same parts gives way. -/
def keep (p : Path) (rest : List Path) : List Path :=
  if rest.head?.any p.same then p :: rest.tail else p :: rest

theorem setOf_eq (paths : List Path) : setOf paths = (paths.mergeSort le).foldr keep [] := by
  unfold setOf
  congr
  funext p rest
  cases rest <;> rfl

variable {p : Path} {rest paths : List Path}

theorem keep_eq (hp : p.Solid) (hRest : ∀ q ∈ rest, q.Solid) :
    keep p rest = if rest.head? = some p then rest else p :: rest := by
  cases rest with
  | nil => rfl
  | cons q others =>
    have hSame : p.same q = true ↔ q = p := by
      constructor
      · intro hSame
        exact (hp.eq_of_same (hRest q List.mem_cons_self) hSame).symm
      · rintro rfl
        exact same_iff.mpr rfl
    simp only [keep, List.head?_cons, Option.any_some, Option.some.injEq, hSame, List.tail_cons]
    split
    · rename_i hEq
      rw [hEq]
    · rfl

/-- In a list in order equal paths stand together, so that each is kept once. -/
theorem foldr_keep (hSolid : ∀ q ∈ paths, q.Solid) (hOrder : paths.Pairwise (le · ·)) :
    (∀ p, p ∈ paths.foldr keep [] ↔ p ∈ paths) ∧ (paths.foldr keep []).Pairwise (cmp · · = .lt) := by
  induction paths with
  | nil => simp
  | cons p paths ih =>
    obtain ⟨hp, hPaths⟩ := List.forall_mem_cons.mp hSolid
    obtain ⟨hBefore, hRest⟩ := List.pairwise_cons.mp hOrder
    obtain ⟨hMem, hSorted⟩ := ih hPaths hRest
    have hKept : ∀ q ∈ paths.foldr keep [], q.Solid := by
      intro q hq
      exact hPaths q ((hMem q).mp hq)
    rw [List.foldr_cons, keep_eq hp hKept]
    split
    · rename_i hHead
      have hAgain : p ∈ paths := (hMem p).mp (List.mem_of_mem_head? hHead)
      refine ⟨fun q => ?_, hSorted⟩
      rw [hMem, List.mem_cons]
      constructor
      · exact .inr
      · rintro (rfl | hq)
        · exact hAgain
        · exact hq
    · rename_i hHead
      refine ⟨fun q => by rw [List.mem_cons, List.mem_cons, hMem], List.pairwise_cons.mpr ⟨?_, hSorted⟩⟩
      intro q hq
      cases hList : paths.foldr keep [] with
      | nil =>
        rw [hList] at hq
        cases hq
      | cons first others =>
        rw [hList] at hq hSorted hHead
        have hMember : first ∈ paths := (hMem first).mp (hList ▸ List.mem_cons_self)
        have hFirst : cmp p first = .lt := by
          apply (le_iff.mp (hBefore first hMember)).resolve_right
          intro hSame
          exact hHead (congrArg some (hp.eq_of_same (hPaths first hMember) hSame).symm)
        rcases List.mem_cons.mp hq with rfl | hq
        · exact hFirst
        · exact cmp_lt_trans hFirst ((List.pairwise_cons.mp hSorted).1 q hq)

theorem setOf_members (hSolid : ∀ q ∈ paths, q.Solid) :
    (∀ p, p ∈ setOf paths ↔ p ∈ paths) ∧ (setOf paths).Pairwise (cmp · · = .lt) := by
  have hOrder := @List.pairwise_mergeSort Path le (fun _ _ _ => le_transitive)
    (fun p q => Bool.or_eq_true_iff.mpr (le_or_le p q)) paths
  have hKept := foldr_keep (fun q hq => hSolid q (List.mem_mergeSort.mp hq)) hOrder
  simpa only [setOf_eq, List.mem_mergeSort] using hKept

end Sets

theorem normalize_of_plain {p : Path} (h : ∀ piece ∈ p.pieces, Part.Plain piece) : p.normalize = p := by
  have hSteps : p.steps = p.pieces.map .name := Part.filterMap_ofPiece?_of_plain h
  rw [normalize_eq, landing, hSteps, foldl_resolveStep_names, List.append_nil, List.reverse_reverse]

end Path

namespace Language

theorem isSome_ofExtension? {ext : String} :
    (ofExtension? ext).isSome = true ↔ Text.lowerAscii ext ∈ extensions := by
  unfold ofExtension?
  split <;> simp_all [extensions]

/-- Neither the empty text nor one with a dot is an extension of a source. -/
theorem extension_of_lowerAscii {ext : String} (h : Text.lowerAscii ext ∈ extensions) :
    ext ≠ "" ∧ '.' ∉ ext.toList := by
  constructor
  · rintro rfl
    exact absurd h (by decide)
  · intro hDot
    have hLower : '.' ∈ (Text.lowerAscii ext).toList := by
      rw [Text.lowerAscii, String.toList_ofList]
      exact List.mem_map_of_mem (f := Char.toLower) hDot
    have hFree : ∀ known ∈ extensions, '.' ∉ known.toList := by decide
    exact hFree _ h hLower

/-- The last name is a stem, a dot and a known extension, in any letter case. -/
def IsSource (way : List Piece) : Prop :=
  ∃ (dir : List Piece) (stem : Piece) (ext : String), way = dir ++ [stem ++ "." ++ Piece.ofString ext] ∧ stem ≠ "" ∧
    Text.lowerAscii ext ∈ extensions

theorem isSome_ofPath? {p : Path} (h : p.Solid) : (ofPath? p).isSome = true ↔ IsSource p.pieces := by
  have hPath : (ofPath? p).isSome = true ↔ ∃ ext, p.extensionText? = some ext ∧ Text.lowerAscii ext ∈ extensions := by
    unfold ofPath?
    cases p.extensionText? <;> simp [isSome_ofExtension?]
  rw [hPath]
  constructor
  · rintro ⟨ext, hExt, hKnown⟩
    obtain ⟨dir, stem, hPieces, hStem, -⟩ :=
      (Path.extensionText?_eq_some_iff (extension_of_lowerAscii hKnown).1).mp hExt
    rw [h.trimmed_eq] at hPieces
    exact ⟨dir, stem, ext, hPieces, hStem, hKnown⟩
  · rintro ⟨dir, stem, ext, hPieces, hStem, hKnown⟩
    obtain ⟨hExt, hFree⟩ := extension_of_lowerAscii hKnown
    refine ⟨ext, (Path.extensionText?_eq_some_iff hExt).mpr ⟨dir, stem, ?_, hStem, hFree⟩, hKnown⟩
    rw [h.trimmed_eq, hPieces]

theorem isSome_ofPath?_append {front below : List Piece} (h : ∀ name ∈ front ++ below, Part.Plain name)
    (hBelow : below ≠ []) : (ofPath? ⟨true, front ++ below⟩).isSome = true ↔ IsSource below := by
  have hSolid : Path.Solid ⟨true, front ++ below⟩ := fun name hName => Path.isVoid_of_plain (h name hName)
  obtain ⟨dir, last, rfl⟩ := (List.eq_nil_or_concat' below).resolve_left hBelow
  rw [isSome_ofPath? hSolid]
  constructor
  · rintro ⟨other, stem, ext, hPieces, hStem, hKnown⟩
    rw [← List.append_assoc] at hPieces
    obtain ⟨-, hLast⟩ := List.append_inj' hPieces rfl
    exact ⟨dir, stem, ext, by rw [hLast], hStem, hKnown⟩
  · rintro ⟨other, stem, ext, hPieces, hStem, hKnown⟩
    exact ⟨front ++ other, stem, ext, by rw [hPieces, List.append_assoc], hStem, hKnown⟩

end Language

namespace Settings

variable {patterns : List String} {relative : String}

/-- Each pattern is a glob; blank patterns do not count. -/
def Compiles (patterns : List String) : Prop :=
  ∀ pattern ∈ patterns, Text.isBlankText pattern = false → ∃ g, Glob.read pattern = .ok g

/-- The pattern is not blank and the path matches it. -/
def Fits (pattern relative : String) : Prop :=
  Text.isBlankText pattern = false ∧ ∃ g, Glob.read pattern = .ok g ∧ g.isMatch relative = true

/-- The globs stand for the patterns that are not blank. -/
structure Compiled (patterns : List String) (globs : List Glob) : Prop where
  isEmpty_iff : globs.isEmpty = true ↔ ∀ pattern ∈ patterns, Text.isBlankText pattern = true
  any_iff : ∀ relative, globs.any (·.isMatch relative) = true ↔ ∃ pattern ∈ patterns, Fits pattern relative

theorem exists_compileAll (h : Compiles patterns) :
    ∃ globs, compileAll patterns = .ok globs ∧ Compiled patterns globs := by
  induction patterns with
  | nil => exact ⟨[], rfl, by simp, by simp⟩
  | cons pattern patterns ih =>
    obtain ⟨hPattern, hRest⟩ := List.forall_mem_cons.mp h
    obtain ⟨globs, hGlobs, hCompiled⟩ := ih hRest
    cases hBlank : Text.isBlankText pattern with
    | true =>
      have hAll : compileAll (pattern :: patterns) = .ok globs := by
        rw [← hGlobs, compileAll, compileAll, List.filter_cons_of_neg (by simp [hBlank])]
      refine ⟨globs, hAll, ?_, ?_⟩
      · simp [hBlank, hCompiled.isEmpty_iff]
      · intro relative
        simp [hBlank, Fits, hCompiled.any_iff]
    | false =>
      obtain ⟨g, hg⟩ := hPattern hBlank
      have hAll : compileAll (pattern :: patterns) = .ok (g :: globs) := by
        rw [compileAll] at hGlobs
        rw [compileAll, List.filter_cons_of_pos (by simp [hBlank]), List.mapM_cons, hGlobs, compile, hg]
        rfl
      refine ⟨g :: globs, hAll, ?_, ?_⟩
      · simp [hBlank]
      · intro relative
        simp [hBlank, hg, Fits, hCompiled.any_iff]

/-- What the patterns ask of a path below the root. -/
structure Picked (s : Settings) (relative : String) : Prop where
  included : (∃ pattern ∈ s.included, Text.isBlankText pattern = false) →
    ∃ pattern ∈ s.included, Fits pattern relative
  excluded : ∀ pattern ∈ s.excluded, ¬ Fits pattern relative

theorem exists_selection {s : Settings} (hIncluded : Compiles s.included) (hExcluded : Compiles s.excluded) :
    ∃ selection, s.selection = .ok selection ∧ ∀ relative, selection.picks relative = true ↔ s.Picked relative := by
  obtain ⟨included, hIn, hInGlobs⟩ := exists_compileAll hIncluded
  obtain ⟨excluded, hEx, hExGlobs⟩ := exists_compileAll hExcluded
  refine ⟨⟨included, excluded⟩, ?_, fun relative => ?_⟩
  · rw [selection, hIn, hEx]
    rfl
  · rw [Selection.picks, Bool.and_eq_true, Bool.or_eq_true, Bool.not_eq_true', ← Bool.not_eq_true,
      hInGlobs.isEmpty_iff, hInGlobs.any_iff, hExGlobs.any_iff]
    constructor
    · rintro ⟨hIncluded, hExcluded⟩
      refine ⟨?_, fun pattern hMem hFits => hExcluded ⟨pattern, hMem, hFits⟩⟩
      rintro ⟨pattern, hMem, hBlank⟩
      apply hIncluded.resolve_left
      intro hAll
      rw [hAll pattern hMem] at hBlank
      cases hBlank
    · rintro ⟨hIncluded, hExcluded⟩
      constructor
      · by_cases hAll : ∀ pattern ∈ s.included, Text.isBlankText pattern = true
        · exact .inl hAll
        · simp only [not_forall, Bool.not_eq_true] at hAll
          obtain ⟨pattern, hMem, hBlank⟩ := hAll
          exact .inr (hIncluded ⟨pattern, hMem, hBlank⟩)
      · rintro ⟨pattern, hMem, hFits⟩
        exact hExcluded pattern hMem hFits

theorem Picked.of_withExcluded {s : Settings} (h : (s.withExcluded patterns).Picked relative) : s.Picked relative where
  included := h.included
  excluded pattern hMem := h.excluded pattern (List.mem_append_left patterns hMem)

theorem Picked.withIncluded {s : Settings} (hSome : ∃ pattern ∈ s.included, Text.isBlankText pattern = false)
    (h : s.Picked relative) : (s.withIncluded patterns).Picked relative where
  included _ := by
    obtain ⟨pattern, hMem, hFits⟩ := h.included hSome
    exact ⟨pattern, List.mem_append_left patterns hMem, hFits⟩
  excluded := h.excluded

end Settings

namespace Workspace

variable {w : Workspace} {s : Settings} {root p : Path} {paths : List Path}

/-- The directories below a root that cannot be listed. -/
def barredBelow (w : Workspace) (root : Path) (names : List Piece) : Bool :=
  (w.barred ⟨true, root.pieces ++ names⟩).isSome

/-- The names lead from the root to a file that a run takes. -/
structure Wanted (w : Workspace) (s : Settings) (root : Path) (below : List Piece) : Prop where
  regular : ∃ content, w.top.lookup? (root.pieces ++ below) = some (.file content)
  entered : ∀ name ∈ below.dropLast, name.text ∉ Tree.ignoredNames
  source : Language.IsSource below
  picked : s.Picked ("/".intercalate (below.map Piece.text))
  listed : Tree.Listed (w.barredBelow root) [] below

/-- The paths are those of the wanted files below the root. -/
structure Discovered (w : Workspace) (s : Settings) (root : Path) (paths : List Path) : Prop where
  canonical : w.canonical s.root = .ok root
  directory : ∃ entries, w.top.lookup? root.pieces = some (.directory entries)
  discover : w.discover s = .ok paths
  mem_iff : ∀ p, p ∈ paths ↔ ∃ below, p = ⟨true, root.pieces ++ below⟩ ∧ w.Wanted s root below
  /-- In strict order, so each once. -/
  ordered : paths.Pairwise (Path.cmp · · = .lt)

theorem exists_find (h : w.isDirectory p = true) :
    ∃ place entries, w.find p = .ok place ∧ Tree.here w.top place = .directory entries := by
  unfold isDirectory at h
  split at h
  · rename_i place hPlace
    cases hHere : Tree.here w.top place with
    | directory entries => exact ⟨place, entries, hPlace, hHere⟩
    | file | link =>
      rw [hHere] at h
      cases h
  · cases h

theorem stands_find {place : Tree.Place} (h : w.find p = .ok place) : Tree.Stands w.top place := by
  unfold find at h
  split at h
  · cases h
  · have hTop : Tree.Stands w.top [] := trivial
    exact Tree.stands_follow hTop h

/-- The names that lead from the root to the files of a run. -/
def taken (w : Workspace) (selection : Selection) (place : Tree.Place) : List (List Piece) :=
  ((Tree.here w.top place).files (w.barredBelow (Tree.path place)) []).filter fun below =>
    (Language.ofPath? ⟨true, Tree.names place ++ below⟩).isSome &&
      selection.picks ("/".intercalate (below.map Piece.text))

theorem discover_eq {selection : Selection} {place : Tree.Place} (hSelection : s.selection = .ok selection)
    (hPlace : w.find s.root = .ok place) : w.discover s = .ok (Path.setOf ((w.taken selection place).map
      fun below => Path.normalize ⟨true, Tree.names place ++ below⟩)) := by
  rw [discover, hSelection, rootPlace, hPlace]
  rfl

variable {place : Tree.Place} {below : List Piece}

theorem mem_files_here (hTree : w.top.Sound) (hPlace : w.find p = .ok place) (barred : List Piece → Bool) :
    below ∈ (Tree.here w.top place).files barred [] ↔
      (∃ content, w.top.lookup? (Tree.names place ++ below) = some (.file content)) ∧
        (∀ name ∈ below.dropLast, name.text ∉ Tree.ignoredNames) ∧ Tree.Listed barred [] below := by
  have hHere := (stands_find hPlace).lookup?_names
  rw [Tree.lookup?_append, hHere, Option.bind_some]
  exact Tree.mem_files_iff (hTree.lookup hHere).2

theorem mem_taken_iff {selection : Selection} {entries : List (Piece × Tree)} (hTree : w.top.Sound)
    (hPlace : w.find p = .ok place) (hDirectory : Tree.here w.top place = .directory entries)
    (hPicks : ∀ relative, selection.picks relative = true ↔ s.Picked relative) :
    below ∈ w.taken selection place ↔ w.Wanted s (Tree.path place) below := by
  have hSource : ∀ content, w.top.lookup? (Tree.names place ++ below) = some (.file content) →
      ((Language.ofPath? ⟨true, Tree.names place ++ below⟩).isSome = true ↔ Language.IsSource below) := by
    intro content hFile
    apply Language.isSome_ofPath?_append (hTree.lookup hFile).1
    rintro rfl
    rw [List.append_nil, (stands_find hPlace).lookup?_names, hDirectory] at hFile
    cases hFile
  rw [taken, List.mem_filter, mem_files_here hTree hPlace, Bool.and_eq_true, hPicks]
  constructor
  · rintro ⟨⟨⟨content, hFile⟩, hEntered, hListed⟩, hLanguage, hPicked⟩
    exact ⟨⟨content, hFile⟩, hEntered, (hSource content hFile).mp hLanguage, hPicked, hListed⟩
  · rintro ⟨⟨content, hFile⟩, hEntered, hNamed, hPicked, hListed⟩
    exact ⟨⟨⟨content, hFile⟩, hEntered, hListed⟩, (hSource content hFile).mpr hNamed, hPicked⟩

theorem exists_discovered (hTree : w.top.Sound) (hRoot : w.isDirectory s.root = true)
    (hIncluded : Settings.Compiles s.included) (hExcluded : Settings.Compiles s.excluded) :
    ∃ root paths, w.Discovered s root paths := by
  obtain ⟨selection, hSelection, hPicks⟩ := Settings.exists_selection hIncluded hExcluded
  obtain ⟨place, entries, hPlace, hDirectory⟩ := exists_find hRoot
  have hCanonical : w.canonical s.root = .ok (Tree.path place) := by
    rw [canonical, hPlace]
    rfl
  have hStands : w.top.lookup? (Tree.path place).pieces = some (.directory entries) :=
    hDirectory ▸ (stands_find hPlace).lookup?_names
  have hSolid : ∀ q ∈ (w.taken selection place).map fun below => Path.normalize ⟨true, Tree.names place ++ below⟩,
      q.Solid := by
    simp only [List.forall_mem_map]
    exact fun below _ => Path.solid_normalize _
  obtain ⟨hMem, hOrdered⟩ := Path.setOf_members hSolid
  refine ⟨Tree.path place, _, hCanonical, ⟨entries, hStands⟩, discover_eq hSelection hPlace, fun q => ?_, hOrdered⟩
  have hNormal : ∀ below, w.Wanted s (Tree.path place) below →
      Path.normalize ⟨true, Tree.names place ++ below⟩ = ⟨true, Tree.names place ++ below⟩ := by
    rintro below ⟨⟨content, hFile⟩, -⟩
    exact Path.normalize_of_plain (hTree.lookup hFile).1
  rw [hMem, List.mem_map]
  apply exists_congr
  intro below
  rw [mem_taken_iff hTree hPlace hDirectory hPicks, and_comm]
  apply and_congr_left
  intro hWanted
  rw [hNormal below hWanted, eq_comm]
  rfl

/-- Of the same root, patterns that pick less find no other files. -/
theorem Discovered.subset {t : Settings} {root' : Path} {others : List Path} (h : w.Discovered s root paths)
    (h' : w.Discovered t root' others) (hRoot : t.root = s.root)
    (hPicked : ∀ relative, t.Picked relative → s.Picked relative) : others ⊆ paths := by
  have hSame : root' = root := by
    have hCanonical := h'.canonical
    rw [hRoot, h.canonical] at hCanonical
    exact (Except.ok.inj hCanonical).symm
  intro q hq
  obtain ⟨below, hPath, hWanted⟩ := (h'.mem_iff q).mp hq
  rw [hSame] at hPath hWanted
  have hPicked := hPicked _ hWanted.picked
  exact (h.mem_iff q).mpr ⟨below, hPath, hWanted.regular, hWanted.entered, hWanted.source, hPicked, hWanted.listed⟩

theorem discover_finds_exactly_wanted (w : Workspace) (s : Settings) (hTree : w.top.Sound)
    (hRoot : w.isDirectory s.root = true) (hIncluded : Settings.Compiles s.included)
    (hExcluded : Settings.Compiles s.excluded) :
    ∃ root paths, w.Discovered s root paths ∧ ∀ patterns, Settings.Compiles patterns →
      (∃ fewer, w.discover (s.withExcluded patterns) = .ok fewer ∧ fewer ⊆ paths) ∧
      ((∃ pattern ∈ s.included, Text.isBlankText pattern = false) →
        ∃ more, w.discover (s.withIncluded patterns) = .ok more ∧ paths ⊆ more) := by
  obtain ⟨root, paths, hPaths⟩ := exists_discovered hTree hRoot hIncluded hExcluded
  refine ⟨root, paths, hPaths, fun patterns hPatterns => ⟨?_, fun hSome => ?_⟩⟩
  · have hMore : Settings.Compiles (s.excluded ++ patterns) := List.forall_mem_append.mpr ⟨hExcluded, hPatterns⟩
    obtain ⟨_, fewer, hFewer⟩ := exists_discovered (s := s.withExcluded patterns) hTree hRoot hIncluded hMore
    exact ⟨fewer, hFewer.discover, hPaths.subset hFewer rfl fun _ => Settings.Picked.of_withExcluded⟩
  · have hMore : Settings.Compiles (s.included ++ patterns) := List.forall_mem_append.mpr ⟨hIncluded, hPatterns⟩
    obtain ⟨_, more, hMore⟩ := exists_discovered (s := s.withIncluded patterns) hTree hRoot hMore hExcluded
    exact ⟨more, hMore.discover, hMore.subset hPaths rfl fun _ => Settings.Picked.withIncluded hSome⟩

/-- An extension in capitals, a link to a source, a link with an ignored name, a directory with one and
one that cannot be listed. -/
def workshopEntries : List (Piece × Tree) :=
  [("App.TSX", .file .empty), ("copy.ts", .link (.ofString "App.TSX")), ("dist", .link (.ofString "lib")),
    ("lib", .directory [("a.mjs", .file .empty), ("dist", .directory [("b.js", .file .empty)])]),
    ("vault", .directory [("c.ts", .file .empty)])]

/-- The root itself has an ignored name. -/
def workshop : Workspace where
  top := .directory [("build", .directory workshopEntries)]
  current := .ofString "/"
  barred p := if p = ⟨true, ["build", "vault"]⟩ then some .denied else none

def workshopSettings : Settings := { root := .ofString "/build", included := [" "], excluded := ["*.mjs", ""] }

theorem find_workshop : workshop.find workshopSettings.root = .ok [("build", .directory workshopEntries)] := by
  have hPieces : (workshop.current.join workshopSettings.root).pieces = [.ofString "build"] := by decide
  have hEntry : Tree.entry? [("build", .directory workshopEntries)] "build" = some (.directory workshopEntries) := rfl
  rw [find, if_neg (by decide), hPieces, workshop, Tree.follow]
  simp only [Tree.here, hEntry]
  rw [if_neg (by decide), if_neg (by decide), if_neg (by decide), Tree.follow]

theorem sound_workshop : workshop.top.Sound := by
  simp [workshop, workshopEntries, Tree.sound_directory_iff, Tree.Sound.file, Tree.Sound.link, Part.Plain]

def moduleGlob : Glob := ⟨[.star, .literal '.', .literal 'm', .literal 'j', .literal 's']⟩

theorem read_moduleGlob : Glob.read "*.mjs" = .ok moduleGlob := by rfl

theorem compiles_workshop :
    Settings.Compiles workshopSettings.included ∧ Settings.Compiles workshopSettings.excluded := by
  have hBlank : Text.isBlankText " " = true ∧ Text.isBlankText "" = true := by decide
  simp [Settings.Compiles, workshopSettings, hBlank, read_moduleGlob]

theorem picked_workshop {relative : String} :
    workshopSettings.Picked relative ↔ moduleGlob.isMatch relative = false := by
  have hBlank : Text.isBlankText " " = true ∧ Text.isBlankText "" = true ∧ Text.isBlankText "*.mjs" = false := by
    decide
  constructor
  · intro h
    have hExcluded := h.excluded "*.mjs" (by decide)
    simpa [Settings.Fits, hBlank, read_moduleGlob] using hExcluded
  · intro h
    constructor
    · simp [workshopSettings, hBlank]
    · simp [workshopSettings, Settings.Fits, hBlank, read_moduleGlob, h]

/-- Of the five sources the one with capitals is found: one is a link, one is left out by its pattern, one
lies in an ignored directory and one in a directory that cannot be listed. -/
theorem workshop_discovered : workshop.top.Sound ∧ workshop.isDirectory workshopSettings.root = true ∧
    Settings.Compiles workshopSettings.included ∧ Settings.Compiles workshopSettings.excluded ∧
    ∃ paths, workshop.discover workshopSettings = .ok paths ∧ ⟨true, ["build", "App.TSX"]⟩ ∈ paths ∧
      ⟨true, ["build", "copy.ts"]⟩ ∉ paths ∧ ⟨true, ["build", "lib", "a.mjs"]⟩ ∉ paths ∧
      ⟨true, ["build", "lib", "dist", "b.js"]⟩ ∉ paths ∧ ⟨true, ["build", "vault", "c.ts"]⟩ ∉ paths := by
  have hRoot : workshop.isDirectory workshopSettings.root = true := by
    rw [isDirectory, find_workshop]
    rfl
  obtain ⟨hIncluded, hExcluded⟩ := compiles_workshop
  refine ⟨sound_workshop, hRoot, hIncluded, hExcluded, ?_⟩
  obtain ⟨root, paths, hPaths, -⟩ :=
    discover_finds_exactly_wanted workshop workshopSettings sound_workshop hRoot hIncluded hExcluded
  obtain rfl : ⟨true, ["build"]⟩ = root := by
    have hCanonical := hPaths.canonical
    rw [canonical, find_workshop] at hCanonical
    exact Except.ok.inj hCanonical
  have hFound : ∀ below, ⟨true, "build" :: below⟩ ∈ paths ↔
      workshop.Wanted workshopSettings ⟨true, ["build"]⟩ below := by
    intro below
    simp [hPaths.mem_iff]
  refine ⟨paths, hPaths.discover, ?_, ?_, ?_, ?_, ?_⟩
  · rw [hFound]
    refine ⟨⟨.empty, rfl⟩, by decide, ⟨[], "App", "TSX", by decide, by decide, by decide⟩, ?_, ?_⟩
    · rw [picked_workshop]
      decide +kernel
    · intro k hk
      obtain rfl : k = 0 := Nat.lt_one_iff.mp hk
      rfl
  · rw [hFound]
    rintro ⟨⟨content, hFile⟩, -⟩
    cases hFile
  · rw [hFound]
    rintro ⟨-, -, -, hPicked, -⟩
    rw [picked_workshop] at hPicked
    exact absurd hPicked (by decide +kernel)
  · rw [hFound]
    rintro ⟨-, hEntered, -⟩
    exact hEntered "dist" (by decide) (by decide)
  · rw [hFound]
    rintro ⟨-, -, -, -, hListed⟩
    exact absurd (hListed 1 (by decide)) (by decide)

end Workspace

end ModuleAtlas
