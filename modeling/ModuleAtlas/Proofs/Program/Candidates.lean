import ModuleAtlas.Proofs.Path.Solid
import ModuleAtlas.Proofs.Program.Resolver
import Mathlib.Data.List.Pairwise

/-!
# Which candidate is found

The paths that are tried for a base path stand at places: the base path itself, then the base
path as it is shown with each extension, then its typed counterparts, then the index files in it.
No path stands at two places. A module name is resolved to the file at the first place that has one,
so with more files the result stays or gives way to a new file at an earlier place.

A base path is shown as it is exactly if its names are texts. Any other is shown with replacement
characters, and with an extension these are tried, and not the base path.
-/

namespace ModuleAtlas.Resolver

open ModuleAtlas.Path ModuleAtlas.Part

set_option autoImplicit false

section Places

/-- A path that is tried for a base path, and its place: the tier and the position in it. -/
inductive Tried (base : Path) : Nat × Nat → Path → Prop where
  | exact : Tried base (0, 0) base
  | extended {i : Nat} {ext : String} (h : Language.extensions[i]? = some ext) :
    Tried base (1, i) (base.legible.append (.ofString ("." ++ ext)))
  | typed {i : Nat} {dir : List Piece} {stem : Piece} {ext other : String}
    (hBase : base.pieces = dir ++ [stem ++ "." ++ Piece.ofString ext]) (hStem : stem ≠ "")
    (h : (typedExtensions ext)[i]? = some other) :
    Tried base (2, i) ⟨base.rooted, dir ++ [stem ++ "." ++ Piece.ofString other]⟩
  | index {i : Nat} {ext : String} (h : Language.extensions[i]? = some ext) :
    Tried base (3, i) ⟨base.rooted, base.pieces ++ [.ofString ("index." ++ ext)]⟩

/-- An earlier tier, or an earlier position in the same tier. -/
def Earlier : Nat × Nat → Nat × Nat → Prop := Prod.Lex (· < ·) (· < ·)

theorem earlier_iff {k l : Nat × Nat} : Earlier k l ↔ k.1 < l.1 ∨ k.1 = l.1 ∧ k.2 < l.2 := Prod.lex_def

theorem earlier_trichotomy (k l : Nat × Nat) : Earlier k l ∨ k = l ∨ Earlier l k := by
  simp only [earlier_iff, Prod.ext_iff]
  omega

theorem Earlier.asymm {k l : Nat × Nat} (h : Earlier k l) : ¬ Earlier l k := by
  simp only [earlier_iff] at h ⊢
  omega

def tiers (base : Path) : List (List Path) :=
  [[base], Language.extensions.map fun ext => .ofString (base.text ++ "." ++ ext),
    (typedExtensions (base.extensionText?.getD "")).map base.withExtension,
    Language.extensions.map fun ext => base.join (.ofString ("index." ++ ext))]

theorem flatten_tiers (base : Path) : (tiers base).flatten = candidates base := by
  simp [tiers, candidates]

def placed (base : Path) : List ((Nat × Nat) × Path) :=
  (tiers base).zipIdx.flatMap fun x => x.1.zipIdx.map fun y => ((x.2, y.2), y.1)

theorem mem_placed {base c : Path} {k : Nat × Nat} :
    (k, c) ∈ placed base ↔ ∃ paths, (tiers base)[k.1]? = some paths ∧ paths[k.2]? = some c := by
  obtain ⟨t, i⟩ := k
  simp only [placed, List.mem_flatMap, List.mem_map, Prod.exists, Prod.mk.injEq, List.mem_zipIdx_iff_getElem?]
  constructor
  · rintro ⟨paths, _, hTier, _, _, hPath, ⟨rfl, rfl⟩, rfl⟩
    exact ⟨paths, hTier, hPath⟩
  · rintro ⟨paths, hTier, hPath⟩
    exact ⟨paths, t, hTier, c, i, hPath, ⟨rfl, rfl⟩, rfl⟩

theorem map_snd_placed (base : Path) : (placed base).map Prod.snd = candidates base := by
  have hTier : ∀ x : List Path × Nat, (x.1.zipIdx.map fun y => ((x.2, y.2), y.1)).map Prod.snd = x.1 := by
    intro x
    rw [List.map_map]
    exact List.zipIdx_map_fst 0 x.1
  rw [placed, List.map_flatMap, List.flatMap_congr fun x _ => hTier x, ← flatten_tiers]
  rw [List.flatMap_def, List.zipIdx_map_fst]

theorem pairwise_zipIdx_snd {α : Type} (xs : List α) : xs.zipIdx.Pairwise fun x y => x.2 < y.2 := by
  apply List.pairwise_map.mp
  rw [List.zipIdx_map_snd]
  exact List.pairwise_lt_range'

theorem pairwise_placed (base : Path) : (placed base).Pairwise fun x y => Earlier x.1 y.1 := by
  refine List.pairwise_flatMap.mpr ⟨fun x _ => List.pairwise_map.mpr ?_, ?_⟩
  · refine (pairwise_zipIdx_snd x.1).imp fun hLt => ?_
    exact earlier_iff.mpr (.inr ⟨rfl, hLt⟩)
  · refine (pairwise_zipIdx_snd (tiers base)).imp fun hLt a ha b hb => ?_
    obtain ⟨_, -, rfl⟩ := List.mem_map.mp ha
    obtain ⟨_, -, rfl⟩ := List.mem_map.mp hb
    exact earlier_iff.mpr (.inl hLt)

theorem index_inj {xs : List String} (h : xs.Nodup) {i j : Nat} {x : String} (hi : xs[i]? = some x)
    (hj : xs[j]? = some x) : i = j :=
  (List.getElem?_inj (List.getElem?_eq_some_iff.mp hi).1 h).mp (hi.trans hj.symm)

theorem extensions_facts : Language.extensions.Nodup ∧ ∀ ext ∈ Language.extensions,
    ext ≠ "" ∧ '.' ∉ ext.toList ∧ '/' ∉ ("." ++ ext).toList ∧
      Path.ofString ("index." ++ ext) = ⟨false, [.ofString ("index." ++ ext)]⟩ := by
  decide

theorem typedExtensions_facts (ext : String) : (typedExtensions ext).Nodup ∧ ∀ other ∈ typedExtensions ext,
    ext ≠ "" ∧ '.' ∉ ext.toList ∧ ext ≠ other ∧ '.' ∉ other.toList := by
  unfold typedExtensions
  split
  case h_5 => simp
  all_goals decide

section Solid

variable {base c : Path} {k : Nat × Nat} {ext : String}

theorem join_index (h : base.Solid) (hExt : ext ∈ Language.extensions) :
    base.join (.ofString ("index." ++ ext)) = ⟨base.rooted, base.pieces ++ [.ofString ("index." ++ ext)]⟩ := by
  rw [(extensions_facts.2 ext hExt).2.2.2, h.join_eq rfl (by simp)]

theorem ofString_extended (h : base.Solid) (hSlash : base.Slashless) (hExt : ext ∈ Language.extensions) :
    Path.ofString (base.text ++ "." ++ ext) = base.legible.append (.ofString ("." ++ ext)) := by
  rw [String.append_assoc, h.ofString_text_append hSlash (extensions_facts.2 ext hExt).2.2.1 (by simp)]

theorem tried_iff_mem_placed (h : base.Solid) (hSlash : base.Slashless) : Tried base k c ↔ (k, c) ∈ placed base := by
  rw [mem_placed]
  constructor
  · intro hTried
    cases hTried with
    | exact => exact ⟨_, rfl, rfl⟩
    | extended hExt =>
      refine ⟨_, rfl, ?_⟩
      rw [List.getElem?_map, hExt, Option.map_some, ofString_extended h hSlash (List.mem_of_getElem? hExt)]
    | typed hBase hStem hOther =>
      obtain ⟨hExt, hFree, -⟩ := (typedExtensions_facts _).2 _ (List.mem_of_getElem? hOther)
      rw [← h.trimmed_eq] at hBase
      refine ⟨_, rfl, ?_⟩
      rw [(extensionText?_eq_some_iff hExt).mpr ⟨_, _, hBase, hStem, hFree⟩, Option.getD_some, List.getElem?_map,
        hOther, Option.map_some,
        withExtension_eq hBase hStem (by simpa using hExt) (mt Piece.dot_mem_bytes_iff.mp hFree)]
    | index hExt =>
      refine ⟨_, rfl, ?_⟩
      rw [List.getElem?_map, hExt, Option.map_some, join_index h (List.mem_of_getElem? hExt)]
  · obtain ⟨t, i⟩ := k
    rintro ⟨paths, hPaths, hPath⟩
    rcases t with _ | _ | _ | _ | t
    · obtain rfl := Option.some.inj hPaths
      rcases i with _ | i
      · obtain rfl := Option.some.inj hPath
        exact .exact
      · cases hPath
    · obtain rfl := Option.some.inj hPaths
      obtain ⟨ext, hExt, rfl⟩ := Option.map_eq_some_iff.mp (List.getElem?_map.symm.trans hPath)
      rw [ofString_extended h hSlash (List.mem_of_getElem? hExt)]
      exact .extended hExt
    · obtain rfl := Option.some.inj hPaths
      obtain ⟨other, hOther, rfl⟩ := Option.map_eq_some_iff.mp (List.getElem?_map.symm.trans hPath)
      obtain ⟨hExt, hFree, -⟩ := (typedExtensions_facts _).2 _ (List.mem_of_getElem? hOther)
      cases hBase : base.extensionText? with
      | none =>
        rw [hBase] at hExt
        exact absurd rfl hExt
      | some ext =>
        rw [hBase, Option.getD_some] at hExt hFree hOther
        obtain ⟨dir, stem, hPieces, hStem, -⟩ := (extensionText?_eq_some_iff hExt).mp hBase
        rw [withExtension_eq hPieces hStem (by simpa using hExt) (mt Piece.dot_mem_bytes_iff.mp hFree)]
        exact .typed (h.trimmed_eq ▸ hPieces) hStem hOther
    · obtain rfl := Option.some.inj hPaths
      obtain ⟨ext, hExt, rfl⟩ := Option.map_eq_some_iff.mp (List.getElem?_map.symm.trans hPath)
      rw [join_index h (List.mem_of_getElem? hExt)]
      exact .index hExt
    · cases hPaths

theorem Tried.solid (hBase : base.Solid) (h : Tried base k c) : c.Solid := by
  cases h with
  | exact => exact hBase
  | extended hExt =>
    have hExt : Piece.ofString _ ≠ Piece.ofString "" :=
      mt Piece.ofString_inj.mp (extensions_facts.2 _ (List.mem_of_getElem? hExt)).1
    rw [Piece.ofString_append]
    exact hBase.legible.append (isVoid_append (by decide) hExt)
  | typed hPieces hStem hOther =>
    obtain ⟨hDir, -⟩ := (solid_iff_of_concat hPieces).mp hBase
    rw [Piece.append_assoc, ← Piece.ofString_append]
    exact (solid_iff_of_concat rfl).mpr ⟨hDir, isVoid_append hStem (by simp)⟩
  | index hExt =>
    have hExt : Piece.ofString _ ≠ Piece.ofString "" :=
      mt Piece.ofString_inj.mp (extensions_facts.2 _ (List.mem_of_getElem? hExt)).1
    rw [Piece.ofString_append]
    exact (solid_iff_of_concat rfl).mpr ⟨hBase, isVoid_append (by decide) hExt⟩

/-- An added extension leads to no typed counterpart: what is shown would have to be the stem, and so
be shown with the extension that the stem had. -/
theorem extended_ne_typed {dir : List Piece} {stem : Piece} {ext other : String}
    (hBase : base.pieces = dir ++ [stem ++ "." ++ Piece.ofString ext]) (hStem : stem ≠ "")
    {added : String} (hAdded : '.' ∉ added.toList) (hOther : '.' ∉ other.toList) :
    base.legible.append (.ofString ("." ++ added)) ≠ ⟨base.rooted, dir ++ [stem ++ "." ++ Piece.ofString other]⟩ := by
  intro hEq
  generalize hLast : stem ++ (Piece.ofString ".") ++ Piece.ofString ext = last at hBase
  have hLegible : base.legible.pieces = dir.map (fun piece => .ofString piece.text) ++ [.ofString last.text] := by
    simp [Path.legible, hBase]
  have hPieces := congrArg Path.pieces hEq
  rw [append_of_concat hLegible] at hPieces
  obtain ⟨-, hPieces⟩ := List.append_inj' hPieces rfl
  rw [List.singleton_inj, Piece.ofString_append, ← Piece.append_assoc] at hPieces
  have hShown : Piece.ofString last.text ≠ Piece.ofString "" := by
    rw [Ne, Piece.ofString_inj, Piece.text_eq_empty_iff, ← hLast, ← Piece.bytes_eq_nil_iff, bytes_extended]
    simp
  have hSplit := split_eq_iff.mpr ⟨rfl, hShown, mt Piece.dot_mem_bytes_iff.mp hAdded⟩
  rw [hPieces, split_eq_iff.mpr ⟨rfl, hStem, mt Piece.dot_mem_bytes_iff.mp hOther⟩] at hSplit
  have hStem : stem = .ofString last.text := congrArg Prod.fst hSplit
  rw [hStem, ← Piece.ofString_append, ← Piece.ofString_append] at hLast
  have hText := congrArg Piece.text hLast
  rw [Piece.text_ofString] at hText
  have hLength := congrArg (fun s : String => s.toList.length) hText
  simp at hLength

/-- A name with a stem is cut in one way only. -/
theorem extended_inj {dir dir' : List Piece} {stem stem' : Piece} {ext ext' : String} (hStem : stem ≠ "")
    (hStem' : stem' ≠ "") (hFree : '.' ∉ ext.toList) (hFree' : '.' ∉ ext'.toList)
    (h : dir ++ [stem ++ "." ++ Piece.ofString ext] = dir' ++ [stem' ++ "." ++ Piece.ofString ext']) :
    dir = dir' ∧ stem = stem' ∧ ext = ext' := by
  obtain ⟨hDir, hLast⟩ := List.append_inj' h rfl
  have hSplit := split_eq_iff.mpr ⟨List.singleton_inj.mp hLast, hStem', mt Piece.dot_mem_bytes_iff.mp hFree'⟩
  rw [split_eq_iff.mpr ⟨rfl, hStem, mt Piece.dot_mem_bytes_iff.mp hFree⟩, Prod.mk.injEq, Option.some.injEq,
    Piece.ofString_inj] at hSplit
  exact ⟨hDir, hSplit⟩

/-- No path stands at two places. -/
theorem Tried.ne_of_earlier {d : Path} {l : Nat × Nat} (hc : Tried base k c) (hd : Tried base l d)
    (h : Earlier k l) : c ≠ d := by
  intro hEq
  have hPieces := congrArg Path.pieces hEq
  rw [earlier_iff] at h
  cases hc with
  | exact =>
    cases hd with
    | exact => simp at h
    | extended hExt => exact legible_append_ne_self (by simp) hEq.symm
    | typed hBase hStem hOther =>
      rw [hBase, List.append_cancel_left_eq, List.singleton_inj, Piece.append_right_inj, Piece.ofString_inj] at hPieces
      exact ((typedExtensions_facts _).2 _ (List.mem_of_getElem? hOther)).2.2.1 hPieces
    | index hExt => simp at hPieces
  | extended hExt =>
    cases hd with
    | exact => simp at h
    | extended hOther =>
      obtain rfl := (String.append_right_inj _).mp (Piece.ofString_inj.mp (append_inj hEq))
      exact absurd (index_inj extensions_facts.1 hExt hOther) (by omega)
    | typed hBase hStem hOther =>
      exact extended_ne_typed hBase hStem (extensions_facts.2 _ (List.mem_of_getElem? hExt)).2.1
        ((typedExtensions_facts _).2 _ (List.mem_of_getElem? hOther)).2.2.2 hEq
    | index hOther =>
      refine legible_append_ne_longer (fun hPiece => ?_) hEq
      have hFirst := congrArg (fun s : String => s.toList.head?) (Piece.ofString_inj.mp hPiece)
      simp at hFirst
  | typed hBase hStem hExt =>
    cases hd with
    | exact | extended hOther => simp at h
    | typed hBase' hStem' hOther =>
      have hFree := ((typedExtensions_facts _).2 _ (List.mem_of_getElem? hExt)).2.1
      have hFree' := ((typedExtensions_facts _).2 _ (List.mem_of_getElem? hOther)).2.1
      obtain ⟨rfl, rfl, rfl⟩ := extended_inj hStem hStem' hFree hFree' (hBase.symm.trans hBase')
      rw [List.append_cancel_left_eq, List.singleton_inj, Piece.append_right_inj, Piece.ofString_inj] at hPieces
      subst hPieces
      exact absurd (index_inj (typedExtensions_facts _).1 hExt hOther) (by omega)
    | index hOther =>
      have hLength := congrArg List.length hPieces
      simp [hBase] at hLength
  | index hExt =>
    cases hd with
    | exact | extended hOther | typed hBase hStem hOther => simp at h
    | index hOther =>
      rw [List.append_cancel_left_eq, List.singleton_inj, Piece.ofString_inj, String.append_right_inj] at hPieces
      subst hPieces
      exact absurd (index_inj extensions_facts.1 hExt hOther) (by omega)

/-- The base path with an extension is tried in its place exactly if its names are texts. -/
theorem tried_append_iff {i : Nat} (hExt : Language.extensions[i]? = some ext) :
    Tried base (1, i) (base.append (.ofString ("." ++ ext))) ↔ base.isText = true := by
  rw [← append_eq_legible_append_iff]
  constructor
  · intro hTried
    generalize hAppend : base.append (.ofString ("." ++ ext)) = c at hTried
    cases hTried with
    | extended hOther =>
      obtain rfl := Option.some.inj (hExt.symm.trans hOther)
      rfl
  · intro hAppend
    rw [hAppend]
    exact .extended hExt

end Solid

end Places

section Found

variable {r : Resolver} {importer base p q : Path} {name : String} {k l : Nat × Nat}

theorem member?_eq_some {files : List Path} {c : Path} (h : member? files c = some p) : p ∈ files ∧ p.same c = true :=
  ⟨List.mem_of_find?_eq_some h, by simpa using List.find?_some h⟩

theorem member?_eq_none_iff {files : List Path} {c : Path} :
    member? files c = none ↔ ∀ p ∈ files, p.same c = false := by
  simp [member?]

/-- A base path is normal, and no slash is in it if none was in the paths it comes from. -/
theorem clean_of_base? (hRoot : r.root.Slashless) (hImporter : importer.Slashless)
    (h : r.base? importer name = some base) : base.Solid ∧ base.Slashless := by
  unfold base? at h
  split at h
  · obtain ⟨dir, hDir, rfl⟩ := Option.map_eq_some_iff.mp h
    exact ⟨solid_normalize _, ((hImporter.parent hDir).join (slashless_ofString name)).normalize⟩
  · split at h
    · obtain rfl := Option.some.inj h
      exact ⟨solid_normalize _, (hRoot.join (slashless_ofString _)).normalize⟩
    · obtain ⟨a, -, rfl⟩ := Option.map_eq_some_iff.mp h
      exact ⟨solid_normalize _, ((hRoot.join (slashless_ofString _)).join (slashless_ofString _)).normalize⟩

/-- The file has the parts of the path that is tried at a place. -/
def Fills (base : Path) (k : Nat × Nat) (p : Path) : Prop := ∃ c, Tried base k c ∧ p.same c = true

theorem Fills.congr (h : Fills base k p) (hSame : q.same p = true) : Fills base k q := by
  obtain ⟨c, hc, hp⟩ := h
  exact ⟨c, hc, same_iff.mpr ((same_iff.mp hSame).trans (same_iff.mp hp))⟩

theorem Fills.place_eq (hBase : base.Solid) (hk : Fills base k p) (hl : Fills base l p) : k = l := by
  obtain ⟨c, hc, hpc⟩ := hk
  obtain ⟨d, hd, hpd⟩ := hl
  have hSame : c.same d = true := same_iff.mpr ((same_iff.mp hpc).symm.trans (same_iff.mp hpd))
  have hEq := (hc.solid hBase).eq_of_same (hd.solid hBase) hSame
  rcases earlier_trichotomy k l with h | h | h
  · exact absurd hEq (hc.ne_of_earlier hd h)
  · exact h
  · exact absurd hEq.symm (hd.ne_of_earlier hc h)

theorem Fills.same (hBase : base.Solid) (hSlash : base.Slashless) (hp : Fills base k p) (hq : Fills base k q) :
    q.same p = true := by
  obtain ⟨c, hc, hp⟩ := hp
  obtain ⟨d, hd, hq⟩ := hq
  obtain ⟨paths, hPaths, hc⟩ := mem_placed.mp ((tried_iff_mem_placed hBase hSlash).mp hc)
  obtain ⟨paths', hPaths', hd⟩ := mem_placed.mp ((tried_iff_mem_placed hBase hSlash).mp hd)
  obtain rfl := Option.some.inj (hPaths.symm.trans hPaths')
  obtain rfl := Option.some.inj (hc.symm.trans hd)
  exact same_iff.mpr ((same_iff.mp hq).trans (same_iff.mp hp).symm)

/-- The file at the first place that is filled. -/
structure Foremost (files : List Path) (base : Path) (k : Nat × Nat) (p : Path) : Prop where
  mem : p ∈ files
  fills : Fills base k p
  first : ∀ q ∈ files, ∀ l, Fills base l q → ¬ Earlier l k

section Clean

variable (hRoot : r.root.Slashless) (hImporter : importer.Slashless)

include hRoot hImporter

theorem foremost_of_resolve (h : r.resolve importer name = some p) :
    ∃ base, r.base? importer name = some base ∧ ∃ k, Foremost r.files base k p := by
  obtain ⟨base, hBase, hFound⟩ := Option.bind_eq_some_iff.mp h
  obtain ⟨hSolid, hSlash⟩ := clean_of_base? hRoot hImporter hBase
  rw [← map_snd_placed, List.findSome?_map] at hFound
  obtain ⟨before, ⟨k, c⟩, after, hSplit, hMember, hNone⟩ := List.findSome?_eq_some_iff.mp hFound
  have hc : Tried base k c := (tried_iff_mem_placed hSolid hSlash).mpr (by simp [hSplit])
  obtain ⟨hMem, hSame⟩ := member?_eq_some hMember
  refine ⟨base, hBase, k, hMem, ⟨c, hc, hSame⟩, ?_⟩
  rintro q hq l ⟨d, hd, hqd⟩ hEarlier
  have hPlaced := (tried_iff_mem_placed hSolid hSlash).mp hd
  have hOrder := hSplit ▸ pairwise_placed base
  rw [hSplit, List.mem_append, List.mem_cons] at hPlaced
  -- what stands before is no file, and what stands after is not earlier
  rcases hPlaced with hBefore | hHere | hAfter
  · have hOther := member?_eq_none_iff.mp (hNone _ hBefore) q hq
    rw [hqd] at hOther
    cases hOther
  · cases hHere
    exact hEarlier.asymm hEarlier
  · exact hEarlier.asymm ((List.pairwise_cons.mp (List.pairwise_append.mp hOrder).2.1).1 _ hAfter)

theorem exists_resolve_of_fills (hBase : r.base? importer name = some base) (hq : q ∈ r.files)
    (hFills : Fills base k q) : ∃ p, r.resolve importer name = some p := by
  obtain ⟨c, hc, hSame⟩ := hFills
  obtain ⟨hSolid, hSlash⟩ := clean_of_base? hRoot hImporter hBase
  have hMem : c ∈ candidates base := by
    rw [← map_snd_placed]
    exact List.mem_map_of_mem ((tried_iff_mem_placed hSolid hSlash).mp hc)
  rw [← Option.isSome_iff_exists, resolve, hBase, Option.bind_some, List.findSome?_isSome_iff]
  refine ⟨c, hMem, Option.isSome_iff_ne_none.mpr fun hNone => ?_⟩
  rw [member?_eq_none_iff.mp hNone q hq] at hSame
  cases hSame

end Clean

end Found

section Pointed

variable {name : String}

/-- A module name that says by itself where it points. -/
def Pointed (name : String) : Prop :=
  Text.startsWith "./" name = true ∨ Text.startsWith "../" name = true ∨ Text.startsWith "/" name = true ∨
    name = "." ∨ name = ".."

theorem pointed_iff : Pointed name ↔ isRelative name = true ∨ Text.startsWith "/" name = true := by
  simp only [Pointed, isRelative, Bool.or_eq_true, beq_iff_eq]
  tauto

theorem base?_of_pointed (r : Resolver) (importer : Path) (h : Pointed name) (aliases : List Alias) :
    { r with aliases }.base? importer name = r.base? importer name := by
  rcases pointed_iff.mp h with hRelative | hSlash
  · rw [base?, base?, if_pos hRelative, if_pos hRelative]
  · have hAfter : Text.after? "/" name = some (String.ofList (name.toList.drop "/".toList.length)) := if_pos hSlash
    simp only [base?, hAfter]

theorem base?_of_not_pointed (r : Resolver) (importer : Path) (h : ¬ Pointed name)
    (hAliases : ∀ a ∈ r.aliases, Text.startsWith a.start name = false) : r.base? importer name = none := by
  rw [pointed_iff, not_or] at h
  have hAfter : Text.after? "/" name = none := if_neg h.2
  have hNone : r.aliases.filter (fun a => Text.startsWith a.start name) = [] := by
    simpa [List.filter_eq_nil_iff] using hAliases
  simp [base?, h.1, hAfter, alias?, hNone]

end Pointed

section More

variable (r : Resolver) (importer : Path) (name : String)

/-- Each of the files is among the others, however it is written there. -/
def Within (files others : List Path) : Prop := ∀ p ∈ files, ∃ q ∈ others, q.same p = true

def Distinct (files : List Path) : Prop := files.Pairwise fun p q => p.same q = false

/-- A file that has the parts of none of the given ones. -/
def Fresh (files : List Path) (q : Path) : Prop := ∀ p ∈ files, p.same q = false

variable {r importer name} (hRoot : r.root.Slashless) (hImporter : importer.Slashless)

section Clean

include hRoot hImporter

theorem resolve_more {files : List Path} (hWithin : Within r.files files) {p : Path}
    (h : r.resolve importer name = some p) : ∃ q, { r with files }.resolve importer name = some q ∧
      (q.same p = true ∨ Fresh r.files q ∧ ∃ base, r.base? importer name = some base ∧
        ∃ k l, Fills base k q ∧ Fills base l p ∧ Earlier k l) := by
  obtain ⟨base, hBase, l, hForemost⟩ := foremost_of_resolve hRoot hImporter h
  obtain ⟨hSolid, hSlash⟩ := clean_of_base? hRoot hImporter hBase
  obtain ⟨p', hp', hSame⟩ := hWithin p hForemost.mem
  have hFills : Fills base l p' := hForemost.fills.congr hSame
  have hMore : { r with files }.base? importer name = some base := hBase
  obtain ⟨q, hq⟩ := exists_resolve_of_fills (r := { r with files }) hRoot hImporter hMore hp' hFills
  obtain ⟨base', hBase', k, hFirst⟩ := foremost_of_resolve (r := { r with files }) hRoot hImporter hq
  obtain rfl := Option.some.inj (hMore.symm.trans hBase')
  refine ⟨q, hq, ?_⟩
  rcases earlier_trichotomy k l with hEarlier | rfl | hLater
  · refine .inr ⟨fun o ho => ?_, base, hBase, k, l, hFirst.fills, hForemost.fills, hEarlier⟩
    rw [Bool.eq_false_iff]
    intro hSame
    exact hForemost.first o ho k (hFirst.fills.congr hSame) hEarlier
  · exact .inl (hForemost.fills.same hSolid hSlash hFirst.fills)
  · exact absurd hLater (hFirst.first p' hp' l hFills)

theorem fresh_of_resolve {files : List Path} (hNone : r.resolve importer name = none) {q : Path}
    (hq : { r with files }.resolve importer name = some q) : Fresh r.files q := by
  intro o ho
  rw [Bool.eq_false_iff]
  intro hSame
  obtain ⟨base, hBase, k, hForemost⟩ := foremost_of_resolve (r := { r with files }) hRoot hImporter hq
  obtain ⟨p, hp⟩ := exists_resolve_of_fills hRoot hImporter hBase ho (hForemost.fills.congr hSame)
  rw [hNone] at hp
  cases hp

end Clean

theorem eq_of_same_of_distinct {files : List Path} (h : Distinct files) {p q : Path} (hp : p ∈ files) (hq : q ∈ files)
    (hSame : q.same p = true) : q = p := by
  have hSymm : Std.Symm fun p q : Path => q.same p = true → q = p :=
    ⟨fun p q hpq hSame => (hpq (by rwa [same_comm])).symm⟩
  have hAll : files.Pairwise fun p q => q.same p = true → q = p := by
    refine h.imp fun {p q} hOther hSame => ?_
    rw [same_comm, hOther] at hSame
    cases hSame
  exact hAll.forall_of_forall (fun _ _ _ => rfl) hp hq hSame

/-- What files and aliases have to do with the result. -/
structure TakesForemost (r : Resolver) (importer : Path) (name : String) : Prop where
  foremost : ∀ p, r.resolve importer name = some p →
    ∃ base, r.base? importer name = some base ∧ ∃ k, Foremost r.files base k p
  none_iff : r.resolve importer name = none ↔
    ∀ base, r.base? importer name = some base → ∀ q ∈ r.files, ∀ k, ¬ Fills base k q
  place_eq : ∀ base, r.base? importer name = some base → ∀ p k l, Fills base k p → Fills base l p → k = l
  /-- Among the extended paths is the base path itself with an extension only if its names are texts. -/
  extended_iff : ∀ base, r.base? importer name = some base → ∀ i ext, Language.extensions[i]? = some ext →
    (Tried base (1, i) (base.append (.ofString ("." ++ ext))) ↔ base.isText = true)
  /-- With more files the result stays, or gives way to a new file at an earlier place. -/
  more : ∀ files, Within r.files files → ∀ p, r.resolve importer name = some p →
    ∃ q ∈ files, { r with files }.resolve importer name = some q ∧
      (q.same p = true ∧ (p ∈ files → Distinct files → q = p) ∨
        Fresh r.files q ∧ ∃ base, r.base? importer name = some base ∧
          ∃ k l, Fills base k q ∧ Fills base l p ∧ Earlier k l)
  more_of_none : r.resolve importer name = none → ∀ files q, { r with files }.resolve importer name = some q →
    q ∈ files ∧ Fresh r.files q
  pointed : Pointed name → ∀ aliases, { r with aliases }.resolve importer name = r.resolve importer name
  bare : ¬ Pointed name → (∀ a ∈ r.aliases, Text.startsWith a.start name = false) → r.resolve importer name = none

/-- A directory whose name, a single byte, is no text. -/
def obscure (name : String) : Path := ⟨true, ["app", ⟨[255]⟩, name]⟩

/-- An index file gives way to a typed counterpart, which gives way to a path with an extension. -/
example :
    let found (files : List String) :=
      Resolver.resolve ⟨.ofString "/app", files.map .ofString, []⟩ (.ofString "/app/main.ts") "./a.js"
    found ["/app/a.js/index.ts"] = some (.ofString "/app/a.js/index.ts") ∧
    found ["/app/a.js/index.ts", "/app/a.tsx"] = some (.ofString "/app/a.tsx") ∧
    found ["/app/a.js/index.ts", "/app/a.tsx", "/app/a.js.cts"] = some (.ofString "/app/a.js.cts") := by
  decide

end More

end ModuleAtlas.Resolver
