import ModuleAtlas.CommandLine.Run
import ModuleAtlas.Proofs.Program.Discovery

/-!
# Programs on disk and in memory

A program is loaded from a file system or put together from texts. With settings that pass their
check and the usual limit of size, the program that is loaded is that of the texts of the files
found, under the root without links: each path leads to the file it was found as, and is normal
already. The files have to be such that they may be read and are parsed in time. So nothing that is
derived from the two programs can differ.
-/

namespace ModuleAtlas

set_option autoImplicit false

namespace Settings

theorem exists_glob_of_mapM {patterns : List String} {globs : List Glob} (h : patterns.mapM compile = .ok globs) :
    ∀ pattern ∈ patterns, ∃ g, Glob.read pattern = .ok g := by
  induction patterns generalizing globs with
  | nil => exact List.forall_mem_nil _
  | cons pattern patterns ih =>
    rw [List.mapM_cons] at h
    cases hGlob : Glob.read pattern with
    | error d =>
      rw [compile, hGlob] at h
      cases h
    | ok g =>
      cases hRest : patterns.mapM compile with
      | error fault =>
        rw [compile, hGlob, hRest] at h
        cases h
      | ok rest => exact List.forall_mem_cons.mpr ⟨⟨g, hGlob⟩, ih hRest⟩

theorem compiles_of_compileAll {patterns : List String} {globs : List Glob} (h : compileAll patterns = .ok globs) :
    Compiles patterns := by
  intro pattern hMem hBlank
  exact exists_glob_of_mapM h pattern (List.mem_filter.mpr ⟨hMem, by rw [hBlank]; rfl⟩)

theorem compiles_of_selection {s : Settings} {selection : Selection} (h : s.selection = .ok selection) :
    Compiles s.included ∧ Compiles s.excluded := by
  cases hIncluded : compileAll s.included with
  | error fault =>
    rw [Settings.selection, hIncluded] at h
    cases h
  | ok included =>
    cases hExcluded : compileAll s.excluded with
    | error fault =>
      rw [Settings.selection, hIncluded, hExcluded] at h
      cases h
    | ok excluded => exact ⟨compiles_of_compileAll hIncluded, compiles_of_compileAll hExcluded⟩

end Settings

namespace Workspace

variable {w : Workspace} {s : Settings} {root p : Path} {paths : List Path} {textOf : Path → String}

theorem of_validate (h : w.validate s = .ok ()) :
    w.isDirectory s.root = true ∧ Settings.Compiles s.included ∧ Settings.Compiles s.excluded := by
  cases hDirectory : w.isDirectory s.root with
  | false =>
    rw [validate, hDirectory] at h
    cases h
  | true =>
    cases hBounds : s.checkBounds with
    | error fault =>
      rw [validate, hDirectory, hBounds] at h
      cases h
    | ok =>
      cases hSelection : s.selection with
      | error fault =>
        rw [validate, hDirectory, hBounds, hSelection] at h
        cases h
      | ok selection => exact ⟨rfl, Settings.compiles_of_selection hSelection⟩

section Read

variable {names : List Piece} {content : ByteArray} {text : String}

/-- A file that stands somewhere is found there under its own path. -/
theorem find_of_lookup? (hTree : w.top.Sound) (hNames : w.top.Storable)
    (h : w.top.lookup? names = some (.file content)) :
    w.stored ⟨true, names⟩ = .ok content ∧ w.canonical ⟨true, names⟩ = .ok ⟨true, names⟩ := by
  obtain ⟨place, hFollow, hHere, hPlace⟩ := @Tree.exists_follow w.top names Tree.maxLinks [] content
    (hTree.lookup h).1 (hNames.lookup h) h
  have hFind : w.find ⟨true, names⟩ = .ok place := hFollow
  have hPath : Tree.path place = ⟨true, names⟩ := by rw [Tree.path, hPlace]; rfl
  constructor
  · simp only [stored, hFind, bind, Except.bind, hHere]
  · rw [canonical, hFind, ← hPath]
    rfl

/-- A file that may be read and is parsed in time gives what its text gives. -/
theorem readSource_of_lookup? (hTree : w.top.Sound) (hNames : w.top.Storable)
    (h : w.top.lookup? names = some (.file text.toUTF8)) (hOpen : w.barred ⟨true, names⟩ = none)
    (hTimely : w.late ⟨true, names⟩ = false) (limit timeout : Nat) :
    w.readSource limit timeout ⟨true, names⟩ = Program.readSource limit ⟨true, names⟩ (.ofString text) := by
  obtain ⟨hStored, hCanonical⟩ := find_of_lookup? hTree hNames h
  have hRead : w.read ⟨true, names⟩ = .ok text.toUTF8 := by
    simp only [read, hStored, hCanonical, bind, Except.bind, hOpen]
  have hValid : text.toUTF8.validateUTF8 = true := ByteArray.validateUTF8_eq_true_iff.mpr text.isValidUTF8
  have hClock : SourceFile.parse ⟨true, names⟩ (.ofString text) ⟨timeout, w.late⟩ =
      SourceFile.parse ⟨true, names⟩ (.ofString text) := by
    simp only [SourceFile.parse, hTimely, Bool.false_eq_true, if_false]
  simp only [readSource, hStored, hRead, hValid, if_true]
  rw [Program.readSource, ← hClock]
  rfl

end Read

/-- Every file of a run may be read and is parsed in time. -/
def Served (w : Workspace) (s : Settings) : Prop :=
  ∀ paths, w.discover s = .ok paths → ∀ p ∈ paths, w.barred p = none ∧ w.late p = false

/-- The program of the texts of some files, held in memory. -/
def held (s : Settings) (root : Path) (paths : List Path) (textOf : Path → String) : Program :=
  .ofSources root (paths.map fun p => (p, .ofString (textOf p))) s.aliases

theorem load_eq (hValid : w.validate s = .ok ()) (hRoot : w.root s = .ok root) (hPaths : w.discover s = .ok paths) :
    w.load s =
      .ok (.assemble root s.aliases (paths.map fun p => (p, w.readSource s.maxFileSize s.parseTimeout p))) := by
  rw [load, hValid, hRoot, hPaths]
  rfl

theorem root_of_canonical (h : w.canonical s.root = .ok root) : w.root s = .ok root.normalize := by
  cases hFind : w.find s.root with
  | error fault =>
    rw [canonical, hFind] at h
    cases h
  | ok place =>
    rw [canonical, hFind] at h
    cases h
    rw [Workspace.root, rootPlace, hFind]
    rfl

theorem Discovered.load_eq_held (h : w.Discovered s root paths) (hTree : w.top.Sound) (hNames : w.top.Storable)
    (hValid : w.validate s = .ok ()) (hLimit : s.maxFileSize = Program.sizeLimit) (hServed : w.Served s)
    (hText : ∀ p ∈ paths, w.top.lookup? p.pieces = some (.file (textOf p).toUTF8)) :
    w.load s = .ok (held s root paths textOf) := by
  rw [load_eq hValid (root_of_canonical h.canonical) h.discover, held, Program.ofSources, List.map_map, hLimit]
  congr 2
  apply List.map_congr_left
  intro p hp
  obtain ⟨below, rfl, -⟩ := (h.mem_iff p).mp hp
  have hFile := hText _ hp
  have hNormal : Path.normalize ⟨true, root.pieces ++ below⟩ = ⟨true, root.pieces ++ below⟩ :=
    Path.normalize_of_plain (hTree.lookup hFile).1
  obtain ⟨hOpen, hTimely⟩ := hServed paths h.discover _ hp
  dsimp only [Function.comp]
  rw [hNormal, readSource_of_lookup? hTree hNames hFile hOpen hTimely]

/-- What is loaded, and what it is in memory. -/
structure LoadsAsInMemory (w : Workspace) (s : Settings) (root : Path) (paths : List Path) (textOf : Path → String) :
    Prop where
  discovered : w.Discovered s root paths
  text : ∀ p ∈ paths, w.top.lookup? p.pieces = some (.file (textOf p).toUTF8)
  load : w.load s = .ok (held s root paths textOf)
  session : ∃ disk, CommandLine.openSession w s = .ok disk ∧ ∀ time,
    let memory := Session.ofProgram ⟨s.complexityThreshold, s.mixedThreshold⟩ (held s root paths textOf)
    disk.report time = memory.report time ∧ disk.graph.snapshot = memory.graph.snapshot

theorem loads_as_in_memory (w : Workspace) (s : Settings) (hTree : w.top.Sound) (hNames : w.top.Storable)
    (hValid : w.validate s = .ok ()) (hLimit : s.maxFileSize = Program.sizeLimit) (hServed : w.Served s)
    (hText : ∀ paths, w.discover s = .ok paths → ∀ p ∈ paths, ∀ content,
      w.top.lookup? p.pieces = some (.file content) → content.IsValidUTF8) :
    ∃ root paths textOf, w.LoadsAsInMemory s root paths textOf := by
  obtain ⟨hRoot, hIncluded, hExcluded⟩ := of_validate hValid
  obtain ⟨root, paths, hPaths⟩ := exists_discovered hTree hRoot hIncluded hExcluded
  have hTexts : ∀ p ∈ paths, ∃ text : String, w.top.lookup? p.pieces = some (.file text.toUTF8) := by
    intro p hp
    obtain ⟨below, rfl, hWanted⟩ := (hPaths.mem_iff p).mp hp
    obtain ⟨content, hFile⟩ := hWanted.regular
    exact ⟨.fromUTF8 content (hText paths hPaths.discover _ hp content hFile), hFile⟩
  choose! textOf hTextOf using hTexts
  have hLoad := hPaths.load_eq_held hTree hNames hValid hLimit hServed hTextOf
  refine ⟨root, paths, textOf, hPaths, hTextOf, hLoad, _, ?_, fun time => ⟨rfl, rfl⟩⟩
  rw [CommandLine.openSession, hLoad]
  rfl

def annexEntries : List (Piece × Tree) :=
  [("a.ts", .file "import { b } from './b';".toUTF8), ("b.ts", .file "export const = ;".toUTF8),
    ("logo.png", .file ⟨#[255]⟩)]

/-- The root is a link; one source does not parse, and a file that is no source holds no text and may
not be read. -/
def annex : Workspace where
  top := .directory [("app", .directory annexEntries), ("here", .link (.ofString "app"))]
  current := .ofString "/"
  barred p := if p = ⟨true, ["app", "logo.png"]⟩ then some .denied else none

def annexSettings : Settings := { root := .ofString "here" }

theorem find_annex : annex.find annexSettings.root = .ok [("app", .directory annexEntries)] := by
  have hPieces : (annex.current.join annexSettings.root).pieces = [.ofString "here"] := by decide
  have hTarget : (Path.ofString "app").rooted = false ∧ (Path.ofString "app").pieces ++ [] = [.ofString "app"] := by
    decide
  have hLink : Tree.entry? [("app", .directory annexEntries), ("here", .link (.ofString "app"))] "here" =
      some (.link (.ofString "app")) := rfl
  have hEntry : Tree.entry? [("app", .directory annexEntries), ("here", .link (.ofString "app"))] "app" =
      some (.directory annexEntries) := rfl
  rw [find, if_neg (by decide), hPieces, annex, Tree.maxLinks, Tree.follow]
  simp only [Tree.here, hLink, hTarget]
  rw [if_neg (by decide), if_neg (by decide), if_neg (by decide), if_neg (by decide), Tree.follow]
  simp only [Tree.here, hEntry]
  rw [if_neg (by decide), if_neg (by decide), if_neg (by decide), Tree.follow]

theorem sound_annex : annex.top.Sound ∧ annex.top.Storable := by
  constructor
  · simp [annex, annexEntries, Tree.sound_directory_iff, Tree.Sound.file, Tree.Sound.link, Part.Plain]
  · have hShort : ∀ name ∈ ["app", "here", "a.ts", "b.ts", "logo.png"],
        (Piece.ofString name).bytes.length ≤ Tree.maxNameSize := by decide
    simp only [List.forall_mem_cons] at hShort
    simp [annex, annexEntries, Tree.storable_directory_iff, Tree.Storable.file, Tree.Storable.link, hShort]

theorem validate_annex : annex.validate annexSettings = .ok () := by
  rw [validate, isDirectory, find_annex]
  rfl

theorem root_annex {root : Path} {paths : List Path} (h : annex.Discovered annexSettings root paths) :
    root = ⟨true, ["app"]⟩ := by
  have hCanonical := h.canonical
  rw [canonical, find_annex] at hCanonical
  exact (Except.ok.inj hCanonical).symm

theorem not_isSource_logo : ¬ Language.IsSource [.ofString "logo.png"] := by
  intro hSource
  have hPlain : ∀ name ∈ [] ++ [Piece.ofString "logo.png"], Part.Plain name := by simp [Part.Plain]
  have hPath := (Language.isSome_ofPath?_append hPlain (List.cons_ne_nil _ _)).mpr hSource
  exact absurd hPath (by decide +kernel)

/-- Every source of the annex is a text. -/
theorem isValidUTF8_of_annex {below : List Piece} {content : ByteArray} (hSource : Language.IsSource below)
    (h : annex.top.lookup? ("app" :: below) = some (.file content)) : content.IsValidUTF8 := by
  have hBelow : Tree.lookup? (.directory annexEntries) below = some (.file content) := h
  cases below with
  | nil => cases hBelow
  | cons name rest =>
    obtain ⟨t, hChild, hRest⟩ := Option.bind_eq_some_iff.mp ((Tree.lookup?_cons _ name rest).symm.trans hBelow)
    have hFile : ∀ found, t = .file found → rest = [] ∧ content = found := by
      rintro found rfl
      cases rest <;> cases hRest
      exact ⟨rfl, rfl⟩
    have hMem : (name, t) ∈ annexEntries := Tree.mem_entries hChild
    simp only [annexEntries, List.mem_cons, Prod.mk.injEq, List.not_mem_nil, or_false] at hMem
    rcases hMem with ⟨-, ht⟩ | ⟨-, ht⟩ | ⟨rfl, ht⟩
    · rw [(hFile _ ht).2]
      exact String.isValidUTF8 _
    · rw [(hFile _ ht).2]
      exact String.isValidUTF8 _
    · obtain ⟨rfl, -⟩ := hFile _ ht
      exact absurd hSource not_isSource_logo

/-- The files that are found in the annex are sources below its directory. -/
theorem exists_of_discover_annex {paths : List Path} (h : annex.discover annexSettings = .ok paths) {p : Path}
    (hp : p ∈ paths) : ∃ below, p = ⟨true, "app" :: below⟩ ∧ Language.IsSource below := by
  obtain ⟨hRoot, hIncluded, hExcluded⟩ := of_validate validate_annex
  obtain ⟨root, others, hOthers⟩ := exists_discovered sound_annex.1 hRoot hIncluded hExcluded
  obtain rfl := root_annex hOthers
  rw [hOthers.discover, Except.ok.injEq] at h
  subst h
  obtain ⟨below, rfl, hWanted⟩ := (hOthers.mem_iff p).mp hp
  exact ⟨below, rfl, hWanted.source⟩

theorem served_annex : annex.Served annexSettings := by
  intro paths hDiscover p hp
  obtain ⟨below, rfl, hSource⟩ := exists_of_discover_annex hDiscover hp
  refine ⟨if_neg fun hLogo => ?_, rfl⟩
  cases hLogo
  exact not_isSource_logo hSource

theorem annex_loaded : annex.top.Sound ∧ annex.top.Storable ∧ annex.validate annexSettings = .ok () ∧
    annexSettings.maxFileSize = Program.sizeLimit ∧ annex.Served annexSettings ∧
    ∃ root paths textOf, annex.LoadsAsInMemory annexSettings root paths textOf ∧ root = ⟨true, ["app"]⟩ ∧
      ⟨true, ["app", "b.ts"]⟩ ∈ paths ∧ textOf ⟨true, ["app", "b.ts"]⟩ = "export const = ;" := by
  obtain ⟨hSound, hStorable⟩ := sound_annex
  have hText : ∀ paths, annex.discover annexSettings = .ok paths → ∀ p ∈ paths, ∀ content,
      annex.top.lookup? p.pieces = some (.file content) → content.IsValidUTF8 := by
    intro paths hDiscover p hp content hFile
    obtain ⟨below, rfl, hSource⟩ := exists_of_discover_annex hDiscover hp
    exact isValidUTF8_of_annex hSource hFile
  refine ⟨hSound, hStorable, validate_annex, rfl, served_annex, ?_⟩
  obtain ⟨root, paths, textOf, hLoaded⟩ :=
    loads_as_in_memory annex annexSettings hSound hStorable validate_annex rfl served_annex hText
  obtain rfl := root_annex hLoaded.discovered
  have hMem : ⟨true, ["app", "b.ts"]⟩ ∈ paths := by
    refine (hLoaded.discovered.mem_iff _).mpr ⟨["b.ts"], rfl, ⟨_, rfl⟩, by simp, ?_, ?_, ?_⟩
    · exact ⟨[], "b", "ts", by decide, by decide, by decide⟩
    · constructor <;> simp [annexSettings]
    · intro k hk
      obtain rfl : k = 0 := Nat.lt_one_iff.mp hk
      rfl
  refine ⟨_, paths, textOf, hLoaded, rfl, hMem, ?_⟩
  have hFile := hLoaded.text _ hMem
  have hSame : Tree.file "export const = ;".toUTF8 = Tree.file (textOf ⟨true, ["app", "b.ts"]⟩).toUTF8 :=
    Option.some.inj hFile
  rw [Tree.file.injEq] at hSame
  exact (String.toByteArray_inj.mp hSame).symm

end Workspace

end ModuleAtlas
