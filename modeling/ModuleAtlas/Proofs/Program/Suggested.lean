import ModuleAtlas.Proofs.File.Exports
import ModuleAtlas.Proofs.Program.Cluster
import ModuleAtlas.Proofs.Program.Discovery
import ModuleAtlas.Proofs.Text.Kebab

/-!
# Files for clusters

The file suggested for a cluster lies beside the mixed file and has its extension. Its name comes
from the first entity, in hyphenated words. What these words leave out cannot be told from the file:
clusters whose first entities differ by letter case or by marks share one file, and where the name
has neither letter nor numeral, nothing is left before the extension to make it one.
-/

namespace ModuleAtlas

set_option autoImplicit false

open ModuleAtlas.Path ModuleAtlas.Part

variable {source p : Path} {language : Language} {entity other ext : String}

section FileName

theorem extension?_of_parts {front : List Part} {s : Piece} (h : p.parts = front ++ [.name s]) :
    p.extension? = s.split.2 := by
  rw [extension?, fileName?, h, List.getLast?_concat]
  rfl

theorem split_stem {stem ext : Piece} (hExt : 46 ∉ ext.bytes) :
    (stem ++ "." ++ ext).split.2 = if stem = "" then none else some ext := by
  rw [split_of_last (bytes_extended stem ext) hExt]
  by_cases hStem : stem = ""
  · simp [hStem, Piece.bytes_eq_nil_iff.mpr rfl]
  · have hBytes : stem.bytes.isEmpty = false := by
      rw [List.isEmpty_eq_false_iff]
      exact mt Piece.bytes_eq_nil_iff.mp hStem
    simp [hStem, hBytes]

theorem exists_extension (h : Language.ofPath? source = some language) :
    ∃ ext, source.extensionText? = some ext ∧ Language.ofExtension? ext = some language ∧ ext ≠ "" ∧
      '.' ∉ ext.toList ∧ '/' ∉ ext.toList := by
  obtain ⟨ext, hExt, hLanguage⟩ := Option.bind_eq_some_iff.mp h
  have hKnown : Text.lowerAscii ext ∈ Language.extensions := by
    rw [← Language.isSome_ofExtension?, hLanguage]
    rfl
  obtain ⟨hEmpty, hDot⟩ := Language.extension_of_lowerAscii hKnown
  refine ⟨ext, hExt, hLanguage, hEmpty, hDot, fun hSlash => ?_⟩
  have hLower : '/' ∈ (Text.lowerAscii ext).toList := by
    rw [Text.lowerAscii, String.toList_ofList]
    exact List.mem_map_of_mem (f := Char.toLower) hSlash
  have hFree : ∀ known ∈ Language.extensions, '/' ∉ known.toList := by decide
  exact hFree _ hKnown hLower

theorem plain_suggested {stem : String} (hExt : ext ≠ "") (hDot : '.' ∉ ext.toList) :
    Plain (.ofString (stem ++ "." ++ ext)) := by
  by_cases hStem : stem = ""
  · have hChars : ext.toList ≠ [] := by simpa using hExt
    have hDots : ext.toList ≠ ['.'] := fun hChars => hDot (hChars ▸ List.mem_singleton_self '.')
    subst hStem
    refine ⟨?_, ?_, ?_⟩ <;>
    · rw [Ne, Piece.ofString_inj, ← String.toList_inj]
      simp [hChars, hDots]
  · rw [Piece.ofString_append, Piece.ofString_append]
    exact plain_of_extension (by simpa using hStem) (by simpa using hExt)

/-- The suggested file stands in the directory of the source, under the hyphenated name. -/
theorem parts_suggestedFile (h : Language.ofPath? source = some language) (entity : String) :
    ∃ dir ext, source.parent? = some dir ∧ source.extensionText? = some ext ∧ '.' ∉ ext.toList ∧
      (suggestedFile source entity).parts = dir.parts ++ [.name (.ofString (Kebab.ofName entity ++ "." ++ ext))] := by
  obtain ⟨ext, hExt, -, hEmpty, hDot, hSlash⟩ := exists_extension h
  obtain ⟨piece, hPiece, -⟩ := Option.bind_eq_some_iff.mp hExt
  obtain ⟨name, hName, -⟩ := Option.bind_eq_some_iff.mp hPiece
  obtain ⟨front, hFront, -⟩ := fileName?_eq_some_iff.mp hName
  have hParent := parent?_eq_some (p := source) (by simp [hFront])
  have hPlain : Plain (.ofString (Kebab.ofName entity ++ "." ++ ext)) := plain_suggested hEmpty hDot
  have hFree : '/' ∉ (Kebab.ofName entity ++ "." ++ ext).toList := by
    simp [Kebab.slash_notMem_ofName, hSlash]
  refine ⟨_, ext, hParent, hExt, hDot, ?_⟩
  rw [suggestedFile, hExt, hParent, Option.getD_some, ofString_of_slashless hFree (by simp),
    parts_join_name _ hPlain]

end FileName

namespace Path

def Beside (p q : Path) : Prop := ∃ dir, p.parent? = some dir ∧ ∃ other, q.parent? = some other ∧ dir.same other = true

end Path

section Suggested

theorem beside_suggestedFile (h : Language.ofPath? source = some language) (entity : String) :
    source.Beside (suggestedFile source entity) := by
  obtain ⟨dir, ext, hDir, hExt, -, hParts⟩ := parts_suggestedFile h entity
  have hName : (suggestedFile source entity).fileName? =
      some (.ofString (Kebab.ofName entity ++ "." ++ ext)) := by
    rw [fileName?, hParts, List.getLast?_concat]
  obtain ⟨front, hFront, -⟩ := fileName?_eq_some_iff.mp hName
  have hParent := parent?_eq_some (p := suggestedFile source entity) (by simp [hFront])
  refine ⟨dir, hDir, _, hParent, same_iff.mpr ?_⟩
  rw [parts_parent? hParent, hParts, List.dropLast_concat]

theorem ofPath?_suggestedFile (h : Language.ofPath? source = some language) (entity : String) :
    Language.ofPath? (suggestedFile source entity) = if Kebab.lowered entity = [] then none else some language := by
  obtain ⟨dir, ext, -, hExt, hDot, hParts⟩ := parts_suggestedFile h entity
  rw [Language.ofPath?, hExt] at h
  rw [Language.ofPath?, extensionText?, extension?_of_parts hParts, Piece.ofString_append, Piece.ofString_append,
    split_stem (mt Piece.dot_mem_bytes_iff.mp hDot)]
  simp only [Piece.ofString_inj]
  by_cases hNone : Kebab.lowered entity = []
  · rw [if_pos (Kebab.ofName_eq_empty_iff.mpr hNone), if_pos hNone]
    rfl
  · rw [if_neg (fun hEmpty => hNone (Kebab.ofName_eq_empty_iff.mp hEmpty)), if_neg hNone, Option.bind_some,
      Piece.text?_eq_some_iff.mpr rfl]
    exact h

theorem same_suggestedFile (h : Language.ofPath? source = some language) :
    (suggestedFile source entity).same (suggestedFile source other) = true ↔
      Kebab.lowered entity = Kebab.lowered other := by
  obtain ⟨dir, ext, hDir, hExt, -, hParts⟩ := parts_suggestedFile h entity
  obtain ⟨dir', ext', hDir', hExt', -, hParts'⟩ := parts_suggestedFile h other
  obtain rfl : dir = dir' := Option.some.inj (hDir.symm.trans hDir')
  obtain rfl : ext = ext' := Option.some.inj (hExt.symm.trans hExt')
  rw [same_iff, hParts, hParts', List.append_cancel_left_eq, ← Kebab.ofName_eq_iff]
  simp

end Suggested

namespace Cluster

def first (c : Cluster) : String := c.entities.head?.getD ""

end Cluster

namespace SourceFile

variable {f : SourceFile} {threshold : Nat} {m : MixedFile} {path : Path} {text : Source}

theorem ofPath?_of_parse (h : parse path text = .ok f) : Language.ofPath? f.path = some f.language := by
  unfold parse at h
  split at h
  · cases h
  · rename_i language hLanguage
    obtain ⟨hPath, hName⟩ : f.path = path ∧ f.language = language := by
      split at h
      · cases h
      · split at h
        · cases h
        · cases h
          exact ⟨rfl, rfl⟩
    rw [hPath, hName, hLanguage]

theorem suggested_of_mixed? (hm : f.mixed? threshold = some m) {c : Cluster} (hc : c ∈ m.clusters) :
    c.first ∈ c.entities ∧ c.suggested = suggestedFile f.path c.first := by
  obtain ⟨-, -, rfl⟩ := mixed?_eq_some_iff.mp hm
  obtain ⟨groups, hGroups, hEntities⟩ := f.exists_components
  simp only [hEntities, List.mem_map] at hc
  obtain ⟨members, ⟨group, hGroup, rfl⟩, rfl⟩ := hc
  obtain ⟨i, hi⟩ := hGroups.component group hGroup
  obtain ⟨j, rest, rfl⟩ := List.exists_cons_of_ne_nil (List.ne_nil_of_mem ((hi i).mpr (.refl i)))
  exact ⟨List.mem_cons_self, rfl⟩

/-- Each suggested file is a file of the same language beside the mixed one, and no two are the same. -/
structure Usable (f : SourceFile) (m : MixedFile) : Prop where
  beside : ∀ c ∈ m.clusters, f.path.Beside c.suggested
  language : ∀ c ∈ m.clusters, Language.ofPath? c.suggested = Language.ofPath? f.path
  apart : m.clusters.Pairwise fun c d => c.suggested.same d.suggested = false

structure SuggestsByFirstName (f : SourceFile) (m : MixedFile) : Prop where
  beside : ∀ c ∈ m.clusters, c.first ∈ c.entities ∧ f.path.Beside c.suggested
  language : ∀ c ∈ m.clusters, Language.ofPath? c.suggested =
    if c.first.toList.any Letter.isAlphanumeric then Language.ofPath? f.path else none
  same_iff : ∀ c ∈ m.clusters, ∀ d ∈ m.clusters, c.suggested.same d.suggested = true ↔
    Kebab.lowered c.first = Kebab.lowered d.first
  usable_iff : f.Usable m ↔ (∀ c ∈ m.clusters, c.first.toList.any Letter.isAlphanumeric = true) ∧
    m.clusters.Pairwise fun c d => Kebab.lowered c.first ≠ Kebab.lowered d.first

theorem mixed_suggests_by_first_name (hf : parse path text = .ok f) (hm : f.mixed? threshold = some m) :
    f.SuggestsByFirstName m := by
  have hLanguage := ofPath?_of_parse hf
  have hOf : ∀ c ∈ m.clusters, Language.ofPath? c.suggested =
      if c.first.toList.any Letter.isAlphanumeric then Language.ofPath? f.path else none := by
    intro c hc
    rw [(suggested_of_mixed? hm hc).2, ofPath?_suggestedFile hLanguage, hLanguage]
    simp only [Kebab.lowered_eq_nil_iff]
    cases c.first.toList.any Letter.isAlphanumeric <;> rfl
  have hSame : ∀ c ∈ m.clusters, ∀ d ∈ m.clusters, c.suggested.same d.suggested = true ↔
      Kebab.lowered c.first = Kebab.lowered d.first := by
    intro c hc d hd
    rw [(suggested_of_mixed? hm hc).2, (suggested_of_mixed? hm hd).2, same_suggestedFile hLanguage]
  have hBeside : ∀ c ∈ m.clusters, f.path.Beside c.suggested := by
    intro c hc
    rw [(suggested_of_mixed? hm hc).2]
    exact beside_suggestedFile hLanguage _
  constructor
  case beside => exact fun c hc => ⟨(suggested_of_mixed? hm hc).1, hBeside c hc⟩
  case language => exact hOf
  case same_iff => exact hSame
  case usable_iff =>
    constructor
    · rintro ⟨-, hLanguages, hApart⟩
      constructor
      · intro c hc
        by_contra hNone
        have hSome := hLanguages c hc
        rw [hOf c hc, if_neg hNone, hLanguage] at hSome
        cases hSome
      · refine hApart.imp_of_mem fun {c d} hc hd hDiffer hWords => ?_
        rw [(hSame c hc d hd).mpr hWords] at hDiffer
        cases hDiffer
    · rintro ⟨hLetters, hWords⟩
      refine ⟨hBeside, fun c hc => by rw [hOf c hc, if_pos (hLetters c hc)], ?_⟩
      refine hWords.imp_of_mem fun {c d} hc hd hDiffer => ?_
      rw [← Bool.not_eq_true, hSame c hc d hd]
      exact hDiffer

def strangers : Source :=
  .ofString "function loadUser() {}\nfunction HTTPClient() {}\nfunction $_2() {}\n"

set_option maxRecDepth 100000 in
theorem strangers_suggested_by_first_name : ∃ f, parse (.ofString "/app/a.js") strangers = .ok f ∧
    ∃ m, f.mixed? 3 = some m ∧ m.clusters.map Cluster.suggested =
      [⟨true, ["app", "load-user.js"]⟩, ⟨true, ["app", "http-client.js"]⟩, ⟨true, ["app", "2.js"]⟩] ∧
    f.SuggestsByFirstName m := by
  have hParsed : ∃ f, parse (.ofString "/app/a.js") strangers = .ok f ∧
      (f.mixed? 3).map (fun m => m.clusters.map Cluster.suggested) = some [⟨true, ["app", "load-user.js"]⟩,
        ⟨true, ["app", "http-client.js"]⟩, ⟨true, ["app", "2.js"]⟩] :=
    exists_parsed _ _ (by decide +kernel)
  obtain ⟨f, hf, hMixed⟩ := hParsed
  obtain ⟨m, hm, hSuggested⟩ := Option.map_eq_some_iff.mp hMixed
  exact ⟨f, hf, m, hm, hSuggested, mixed_suggests_by_first_name hf hm⟩

/-- Two names that differ by case and a mark, and one that is a mark. -/
def lookalikes : Source :=
  .ofString "function fooBar() {}\nfunction foo_bar() {}\nfunction _() {}\n"

set_option maxRecDepth 100000 in
theorem lookalikes_not_usable : ∃ f, parse (.ofString "/app/a.js") lookalikes = .ok f ∧
    ∃ m, f.mixed? 3 = some m ∧ m.clusters.map Cluster.suggested =
      [⟨true, ["app", "foo-bar.js"]⟩, ⟨true, ["app", "foo-bar.js"]⟩, ⟨true, ["app", ".js"]⟩] ∧
    ¬ f.Usable m := by
  have hParsed : ∃ f, parse (.ofString "/app/a.js") lookalikes = .ok f ∧
      (f.mixed? 3).map (fun m => m.clusters.map Cluster.suggested) = some [⟨true, ["app", "foo-bar.js"]⟩,
        ⟨true, ["app", "foo-bar.js"]⟩, ⟨true, ["app", ".js"]⟩] :=
    exists_parsed _ _ (by decide +kernel)
  obtain ⟨f, hf, hMixed⟩ := hParsed
  obtain ⟨m, hm, hSuggested⟩ := Option.map_eq_some_iff.mp hMixed
  refine ⟨f, hf, m, hm, hSuggested, fun hUsable => ?_⟩
  have hApart : (m.clusters.map Cluster.suggested).Pairwise fun p q => p.same q = false :=
    List.pairwise_map.mpr hUsable.apart
  rw [hSuggested] at hApart
  exact absurd hApart (by decide)

end SourceFile

end ModuleAtlas
