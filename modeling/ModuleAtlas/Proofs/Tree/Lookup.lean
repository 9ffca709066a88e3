import ModuleAtlas.Program.Discovery
import ModuleAtlas.Proofs.Path.Normal
import Mathlib.Data.List.Nodup

/-!
# What stands where in a tree

Names lead from a tree down to what stands at their end; no link is followed on the way. The walk
through a tree finds the regular files that names lead to without passing an ignored directory.
A path that is followed ends where the names of the place lead to.
-/

namespace ModuleAtlas.Tree

set_option autoImplicit false

open ModuleAtlas.Part (Plain)

variable {t u top : Tree} {name : Piece} {way : List Piece} {entries : List (Piece × Tree)}

def child? : Tree → Piece → Option Tree
  | directory entries, name => entry? entries name
  | _, _ => none

/-- What stands at the end of a chain of names. -/
def lookup? (t : Tree) (way : List Piece) : Option Tree := way.foldlM child? t

theorem lookup?_cons (t : Tree) (name : Piece) (way : List Piece) :
    t.lookup? (name :: way) = (t.child? name).bind (·.lookup? way) := rfl

theorem lookup?_append (t : Tree) (way rest : List Piece) :
    t.lookup? (way ++ rest) = (t.lookup? way).bind (·.lookup? rest) := List.foldlM_append

/-- The entries of every directory have names, and each its own. -/
inductive Sound : Tree → Prop
  | file (content : ByteArray) : Sound (.file content)
  | link (target : Path) : Sound (.link target)
  | directory {entries : List (Piece × Tree)} (distinct : (entries.map Prod.fst).Nodup)
      (plain : ∀ e ∈ entries, Plain e.1) (below : ∀ e ∈ entries, Sound e.2) : Sound (.directory entries)

section Sound

theorem sound_directory_iff : (directory entries).Sound ↔
    (entries.map Prod.fst).Nodup ∧ (∀ e ∈ entries, Plain e.1) ∧ ∀ e ∈ entries, e.2.Sound := by
  constructor
  · intro h
    cases h with
    | directory distinct plain below => exact ⟨distinct, plain, below⟩
  · rintro ⟨distinct, plain, below⟩
    exact .directory distinct plain below

theorem mem_entries (h : entry? entries name = some t) : (name, t) ∈ entries := by
  obtain ⟨e, hFind, rfl⟩ := Option.map_eq_some_iff.mp h
  have hName : e.1 = name := by simpa using List.find?_some hFind
  exact hName ▸ List.mem_of_find?_eq_some hFind

theorem entry?_eq_some_iff (hDistinct : (entries.map Prod.fst).Nodup) :
    entry? entries name = some t ↔ (name, t) ∈ entries := by
  refine ⟨mem_entries, fun hMem => ?_⟩
  cases hFound : entry? entries name with
  | none =>
    have hNone := List.find?_eq_none.mp (Option.map_eq_none_iff.mp hFound) (name, t) hMem
    simp at hNone
  | some u =>
    have hSame := List.inj_on_of_nodup_map hDistinct (mem_entries hFound) hMem rfl
    rw [(Prod.mk.inj hSame).2]

theorem Sound.child (h : t.Sound) (hChild : t.child? name = some u) : Plain name ∧ u.Sound := by
  cases h with
  | file => cases hChild
  | link => cases hChild
  | directory _ plain below =>
    have hMem := mem_entries hChild
    exact ⟨plain _ hMem, below _ hMem⟩

theorem Sound.lookup (h : t.Sound) (hFound : t.lookup? way = some u) : (∀ name ∈ way, Plain name) ∧ u.Sound := by
  induction way generalizing t with
  | nil =>
    cases hFound
    exact ⟨List.forall_mem_nil _, h⟩
  | cons name way ih =>
    rw [lookup?_cons] at hFound
    obtain ⟨v, hChild, hRest⟩ := Option.bind_eq_some_iff.mp hFound
    obtain ⟨hPlain, hv⟩ := h.child hChild
    obtain ⟨hWay, hu⟩ := ih hv hRest
    exact ⟨List.forall_mem_cons.mpr ⟨hPlain, hWay⟩, hu⟩

end Sound

section Walk

variable {barred : List Piece → Bool} {path below : List Piece}

theorem mem_entryFiles : path ∈ entryFiles barred way entries ↔
    ∃ e ∈ entries, isIgnored e.1 e.2 = false ∧ path ∈ files barred (way ++ [e.1]) e.2 := by
  induction entries with
  | nil => simp [entryFiles]
  | cons e entries ih =>
    obtain ⟨name, t⟩ := e
    rw [entryFiles, List.mem_append, ih]
    cases hIgnored : isIgnored name t <;> simp [hIgnored]

theorem mem_files_directory : path ∈ files barred way (directory entries) ↔ barred way = false ∧
    ∃ e ∈ entries, isIgnored e.1 e.2 = false ∧ path ∈ files barred (way ++ [e.1]) e.2 := by
  rw [files, ← mem_entryFiles]
  cases barred way <;> simp

theorem prefix_of_mem_files (h : t.Sound) (hPath : path ∈ files barred way t) : way <+: path := by
  induction h generalizing way with
  | file content => exact (List.mem_singleton.mp hPath) ▸ List.prefix_refl way
  | link target => cases hPath
  | directory _ _ _ ih =>
    obtain ⟨-, e, he, -, hBelow⟩ := mem_files_directory.mp hPath
    exact (List.prefix_append way [e.1]).trans (ih e he hBelow)

theorem nil_mem_files (h : t.Sound) : way ∈ files barred way t ↔ ∃ content, t = file content := by
  cases h with
  | file content => simp [files]
  | link target => simp [files]
  | directory _ _ below =>
    simp only [mem_files_directory, reduceCtorEq, exists_false, iff_false, not_and, not_exists]
    intro _ e he _ hPath
    have hLength := (prefix_of_mem_files (below e he) hPath).length_le
    simp at hLength

theorem cons_mem_files (h : t.Sound) : way ++ name :: below ∈ files barred way t ↔
    barred way = false ∧ ∃ u, t.child? name = some u ∧ isIgnored name u = false ∧
      (way ++ [name]) ++ below ∈ files barred (way ++ [name]) u := by
  cases h with
  | file => simp [files, child?]
  | link => simp [files, child?]
  | directory distinct _ sound =>
    rw [mem_files_directory, List.append_assoc, List.singleton_append]
    refine and_congr_right fun _ => ?_
    simp only [child?, entry?_eq_some_iff distinct]
    constructor
    · rintro ⟨⟨other, u⟩, hMem, hIgnored, hPath⟩
      -- the name of the entry is the next one on the way
      have hPrefix := prefix_of_mem_files (sound _ hMem) hPath
      rw [List.prefix_append_right_inj, List.cons_prefix_cons] at hPrefix
      obtain rfl : other = name := hPrefix.1
      exact ⟨u, hMem, hIgnored, hPath⟩
    · rintro ⟨u, hMem, hIgnored, hPath⟩
      exact ⟨(name, u), hMem, hIgnored, hPath⟩

theorem isDirectory_of_lookup? (h : t.lookup? (name :: way) = some u) : t.isDirectory = true := by
  cases t with
  | directory => rfl
  | file => cases h
  | link => cases h

/-- Every directory on the way can be listed. -/
def Listed (barred : List Piece → Bool) (way below : List Piece) : Prop :=
  ∀ k < below.length, barred (way ++ below.take k) = false

theorem listed_cons : Listed barred way (name :: below) ↔ barred way = false ∧ Listed barred (way ++ [name]) below := by
  constructor
  · intro h
    refine ⟨by simpa using h 0 (by simp), fun k hk => ?_⟩
    have hNext := h (k + 1) (by simpa using hk)
    rwa [List.take_succ_cons, ← List.singleton_append, ← List.append_assoc] at hNext
  · rintro ⟨hFirst, hRest⟩ k hk
    cases k with
    | zero => simpa using hFirst
    | succ k =>
      rw [List.take_succ_cons, ← List.singleton_append, ← List.append_assoc]
      exact hRest k (by simpa using hk)

/-- The walk finds the regular files below, except in ignored directories and those that cannot be
listed. -/
theorem mem_files_iff (h : t.Sound) : way ++ below ∈ files barred way t ↔
    (∃ content, t.lookup? below = some (file content)) ∧ (∀ name ∈ below.dropLast, name.text ∉ ignoredNames) ∧
      Listed barred way below := by
  induction below generalizing t way with
  | nil => simp [nil_mem_files h, lookup?, Listed]
  | cons name below ih =>
    rw [cons_mem_files h, lookup?_cons, listed_cons]
    cases hChild : t.child? name with
    | none => simp
    | some u =>
      simp only [Option.some.injEq, exists_eq_left', Option.bind_some, ih (h.child hChild).2]
      cases below with
      | nil =>
        have hFile : ∀ content, u = file content → isIgnored name u = false := by
          rintro content rfl
          rfl
        have hUsual : isIgnored name u = false ∧ (∃ content, u = file content) ↔ ∃ content, u = file content :=
          and_iff_right_of_imp fun ⟨content, hu⟩ => hFile content hu
        simp only [lookup?, List.foldlM_nil, Option.pure_def, Option.some.injEq, List.dropLast_nil,
          List.dropLast_singleton, List.not_mem_nil, false_imp_iff, implies_true, true_and]
        tauto
      | cons next below =>
        have hIgnored : ∀ content, u.lookup? (next :: below) = some (file content) →
            (isIgnored name u = false ↔ name.text ∉ ignoredNames) := by
          intro content hFound
          simp [isIgnored, isDirectory_of_lookup? hFound]
        rw [List.dropLast_cons_cons, List.forall_mem_cons]
        constructor
        · rintro ⟨hOpen, hName, ⟨content, hFound⟩, hRest, hListed⟩
          exact ⟨⟨content, hFound⟩, ⟨(hIgnored content hFound).mp hName, hRest⟩, hOpen, hListed⟩
        · rintro ⟨⟨content, hFound⟩, ⟨hName, hRest⟩, hOpen, hListed⟩
          exact ⟨hOpen, (hIgnored content hFound).mpr hName, ⟨content, hFound⟩, hRest, hListed⟩

end Walk

section Places

/-- Each name of the place is that of an entry where the names before it lead. -/
def Stands (top : Tree) : Place → Prop
  | [] => True
  | (name, t) :: place => (here top place).child? name = some t ∧ Stands top place

theorem names_cons (name : Piece) (t : Tree) (place : Place) : names ((name, t) :: place) = names place ++ [name] := by
  simp [names]

theorem Stands.lookup?_names {place : Place} (h : Stands top place) :
    top.lookup? (names place) = some (here top place) := by
  induction place with
  | nil => rfl
  | cons e place ih =>
    obtain ⟨name, t⟩ := e
    obtain ⟨hChild, hPlace⟩ := h
    rw [names_cons, lookup?_append, ih hPlace, Option.bind_some, lookup?_cons, hChild]
    rfl

theorem stands_follow {links : Nat} {place found : Place} {pieces : List Piece} (h : Stands top place)
    (hFound : follow top links place pieces = .ok found) : Stands top found := by
  fun_induction follow top links place pieces with
  | case1 =>
    cases hFound
    exact h
  | case2 _ _ _ _ _ _ _ ih => exact ih h hFound
  | case3 _ place _ _ _ _ _ _ ih =>
    apply ih _ hFound
    cases place with
    | nil => exact h
    | cons e place => exact h.2
  | case7 place _ _ _ _ _ _ _ target _ _ ih =>
    apply ih _ hFound
    cases target.rooted with
    | true => trivial
    | false => exact h
  | case8 _ place piece _ entries hHere _ _ _ t _ hEntry ih =>
    apply ih _ hFound
    have hChild : (here top place).child? piece = some t := by rw [hHere, child?, hEntry]
    exact ⟨hChild, h⟩
  | _ => cases hFound

/-- No name is longer than a name that is followed may be. -/
inductive Storable : Tree → Prop
  | file (content : ByteArray) : Storable (.file content)
  | link (target : Path) : Storable (.link target)
  | directory {entries : List (Piece × Tree)} (short : ∀ e ∈ entries, e.1.bytes.length ≤ maxNameSize)
      (below : ∀ e ∈ entries, Storable e.2) : Storable (.directory entries)

theorem storable_directory_iff : (directory entries).Storable ↔
    (∀ e ∈ entries, e.1.bytes.length ≤ maxNameSize) ∧ ∀ e ∈ entries, e.2.Storable := by
  constructor
  · intro h
    cases h with
    | directory short below => exact ⟨short, below⟩
  · rintro ⟨short, below⟩
    exact .directory short below

theorem Storable.lookup (h : t.Storable) (hFound : t.lookup? way = some u) :
    ∀ name ∈ way, name.bytes.length ≤ maxNameSize := by
  induction way generalizing t with
  | nil => exact List.forall_mem_nil _
  | cons name way ih =>
    rw [lookup?_cons] at hFound
    obtain ⟨v, hChild, hRest⟩ := Option.bind_eq_some_iff.mp hFound
    cases h with
    | file => cases hChild
    | link => cases hChild
    | directory short below =>
      have hMem := mem_entries hChild
      exact List.forall_mem_cons.mpr ⟨short _ hMem, ih (below _ hMem) hRest⟩

/-- Names that lead to a file are followed to it: no link stands on the way. -/
theorem exists_follow {links : Nat} {place : Place} {content : ByteArray} (hPlain : ∀ name ∈ way, Plain name)
    (hShort : ∀ name ∈ way, name.bytes.length ≤ maxNameSize)
    (h : (here top place).lookup? way = some (file content)) :
    ∃ found, follow top links place way = .ok found ∧ here top found = file content ∧
      names found = names place ++ way := by
  induction way generalizing place with
  | nil => exact ⟨place, by rw [follow], Option.some.inj h, (List.append_nil _).symm⟩
  | cons name way ih =>
    obtain ⟨⟨hEmpty, hDot, hDots⟩, hPlain⟩ := List.forall_mem_cons.mp hPlain
    obtain ⟨hName, hShort⟩ := List.forall_mem_cons.mp hShort
    rw [lookup?_cons] at h
    obtain ⟨u, hChild, hRest⟩ := Option.bind_eq_some_iff.mp h
    cases hHere : here top place with
    | file => rw [hHere] at hChild; cases hChild
    | link => rw [hHere] at hChild; cases hChild
    | directory entries =>
      rw [hHere] at hChild
      have hEntry : entry? entries name = some u := hChild
      have hVoid : Path.isVoid name = false := by simp [Path.isVoid, hEmpty, hDot]
      have hStep : follow top links place (name :: way) = follow top links ((name, u) :: place) way := by
        rw [follow, hHere]
        simp only [hVoid, hEntry, beq_eq_false_iff_ne.mpr hDots, Nat.not_lt.mpr hName, if_false, Bool.false_eq_true]
        cases u with
        | link target => cases way <;> cases hRest
        | file => rfl
        | directory => rfl
      have hNext : (here top ((name, u) :: place)).lookup? way = some (file content) := hRest
      obtain ⟨found, hFound, hFile, hNames⟩ := ih hPlain hShort hNext
      refine ⟨found, hStep.trans hFound, hFile, ?_⟩
      rw [hNames, names_cons, List.append_assoc, List.singleton_append]

end Places

end ModuleAtlas.Tree
