import ModuleAtlas.Program.Cluster
import ModuleAtlas.Proofs.Program.DisjointSets
import ModuleAtlas.Proofs.Collection
import Mathlib.Combinatorics.SimpleGraph.Connectivity.Connected
import Mathlib.Data.Fintype.Card
import Mathlib.Data.List.FinRange
import Mathlib.SetTheory.Cardinal.Finite

/-!
# Clusters are connected components

Entities that share a dependency or of which one mentions the other are kin. The clusters of
a file are the connected components of kinship, by their first entities, and a file is mixed
exactly if it has enough entities and there are at least two components.
-/

namespace ModuleAtlas

open Relation

set_option autoImplicit false

namespace Cluster

variable {n : Nat}

theorem mem_pairs {i j : Fin n} : (i, j) ∈ pairs n ↔ i < j := by
  simp [pairs]

theorem joins_foldl {r : Fin n → Fin n → Prop} {s : DisjointSets n} (h : s.Joins r)
    (related : Fin n → Fin n → Bool) (ps : List (Fin n × Fin n)) :
    (ps.foldl (fun s p => if related p.1 p.2 then s.unite p.1 p.2 else s) s).Joins fun x y =>
      r x y ∨ ((x, y) ∈ ps ∧ related x y = true) := by
  induction ps generalizing s r with
  | nil => simpa using h
  | cons p ps ih =>
    rw [List.foldl_cons]
    split
    · rename_i hp
      convert ih (h.unite p.1 p.2) using 3 with x y
      rw [List.mem_cons, or_and_right, or_assoc, Prod.mk.injEq]
      grind
    · rename_i hp
      convert ih h using 3 with x y
      grind

theorem joins_connect (related : Fin n → Fin n → Bool) :
    (connect related).Joins fun x y => x < y ∧ related x y = true := by
  have hJoins := joins_foldl (DisjointSets.joins_singletons (r := fun _ _ => False) fun _ _ => id)
    related (pairs n)
  simpa only [connect, mem_pairs, false_or] using hJoins

theorem place_of_notMem {root : Fin n} {roots : List (Fin n)} (h : root ∉ roots) (member : Fin n)
    (members : Fin n → List (Fin n)) :
    place root member (roots.map fun r => (r, members r)) =
      (roots.map fun r => (r, members r)) ++ [(root, [member])] := by
  induction roots with
  | nil => rfl
  | cons r roots ih =>
    rw [List.mem_cons, not_or] at h
    have hne : ¬ (r == root) = true := by simpa using Ne.symm h.1
    rw [List.map_cons, place, if_neg hne, ih h.2, List.cons_append]

theorem place_of_mem {root : Fin n} {roots : List (Fin n)} (hRoots : roots.Nodup) (h : root ∈ roots)
    (member : Fin n) (members : Fin n → List (Fin n)) :
    place root member (roots.map fun r => (r, members r)) =
      roots.map fun r => (r, if root = r then members r ++ [member] else members r) := by
  induction roots with
  | nil => cases h
  | cons r roots ih =>
    rw [List.nodup_cons] at hRoots
    by_cases hr : r = root
    · subst hr
      have hRest : ∀ q ∈ roots, r ≠ q := fun q hq hEq => hRoots.1 (hEq ▸ hq)
      rw [List.map_cons, List.map_cons, place, if_pos (beq_self_eq_true r), if_pos rfl]
      congr 1
      exact List.map_congr_left fun q hq => by rw [if_neg (hRest q hq)]
    · have hMem : root ∈ roots := (List.mem_cons.mp h).resolve_left (Ne.symm hr)
      have hne : ¬ (r == root) = true := by simpa using hr
      rw [List.map_cons, List.map_cons, place, if_neg hne, if_neg (Ne.symm hr), ih hRoots.2 hMem]

/-- Look up the root of an element and put the element into its group. -/
def sortIn (state : DisjointSets n × List (Fin n × List (Fin n))) (i : Fin n) :
    DisjointSets n × List (Fin n × List (Fin n)) :=
  ((state.1.find i).2, place (state.1.find i).1 i state.2)

/-- The elements of a list that are roots, each with those whose root it is. -/
def byRoot (s : DisjointSets n) (is : List (Fin n)) : List (Fin n × List (Fin n)) :=
  (is.filter fun i => s.root i = i).map fun r => (r, is.filter fun j => s.root j = r)

theorem place_byRoot {s : DisjointSets n} {is : List (Fin n)} {i : Fin n} (hNodup : is.Nodup)
    (hBelow : ∀ j, j ∈ is ↔ j < i) :
    place (s.root i) i (byRoot s is) = byRoot s (is ++ [i]) := by
  simp only [byRoot, List.filter_append, List.filter_singleton, List.map_append]
  by_cases hi : s.root i = i
  · -- no element below has this root, so a group begins
    have hEmpty : is.filter (fun j => s.root j = i) = [] := by
      rw [List.filter_eq_nil_iff]
      intro j hj hRoot
      have hle := s.root_le j
      rw [of_decide_eq_true hRoot] at hle
      exact absurd ((hBelow j).mp hj) (not_lt.mpr hle)
    have hne : ∀ r ∈ is.filter (fun j => s.root j = j), ¬ i = r := by
      rintro r hr rfl
      exact lt_irrefl i ((hBelow i).mp (List.mem_of_mem_filter hr))
    rw [hi, place_of_notMem fun hMem => hne i hMem rfl]
    simp only [decide_true, Bool.cond_true, List.map_cons, List.map_nil, hEmpty, List.nil_append]
    congr 1
    exact List.map_congr_left fun r hr => by simp [hne r hr]
  · have hMem : s.root i ∈ is.filter fun j => s.root j = j := by
      have hLt : s.root i < i := lt_of_le_of_ne (s.root_le i) hi
      rw [List.mem_filter, decide_eq_true_eq]
      exact ⟨(hBelow _).mpr hLt, s.root_root i⟩
    rw [place_of_mem (hNodup.filter _) hMem]
    simp only [hi, decide_false, Bool.cond_false, List.map_nil, List.append_nil]
    exact List.map_congr_left fun r _ => by split <;> simp [*]

theorem foldl_sortIn {s : DisjointSets n} (is : List (Fin n)) (hSorted : is.Pairwise (· < ·))
    (hClosed : ∀ i ∈ is, ∀ j < i, j ∈ is) :
    (∀ x, (is.foldl sortIn (s, [])).1.root x = s.root x) ∧
      (is.foldl sortIn (s, [])).2 = byRoot s is := by
  induction is using List.reverseRecOn with
  | nil => exact ⟨fun _ => rfl, rfl⟩
  | append_singleton is i ih =>
    obtain ⟨hSorted, -, hLast⟩ := List.pairwise_append.mp hSorted
    have hLt : ∀ j ∈ is, j < i := fun j hj => hLast j hj i (List.mem_singleton_self i)
    have hBelow : ∀ j, j ∈ is ↔ j < i := by
      refine fun j => ⟨hLt j, fun hj => ?_⟩
      have hMem := hClosed i (by simp) j hj
      simpa [hj.ne] using hMem
    obtain ⟨hRoot, hGroups⟩ := ih hSorted fun j hj k hk => (hBelow k).mpr (hk.trans (hLt j hj))
    rw [List.foldl_append, List.foldl_cons, List.foldl_nil, sortIn]
    refine ⟨fun x => ?_, ?_⟩
    · rw [DisjointSets.root_find, hRoot]
    · rw [DisjointSets.find_fst, hRoot, hGroups]
      exact place_byRoot (hSorted.imp ne_of_lt) hBelow

theorem groups_eq (s : DisjointSets n) : groups s = (byRoot s (List.finRange n)).map Prod.snd := by
  have hFold := foldl_sortIn (s := s) (List.finRange n) (List.pairwise_lt_finRange n) (by simp)
  exact congrArg (List.map Prod.snd) hFold.2

theorem mem_groups {s : DisjointSets n} {c : List (Fin n)} :
    c ∈ groups s ↔ ∃ r, s.root r = r ∧ c = (List.finRange n).filter fun j => s.root j = r := by
  simp [groups_eq, byRoot, eq_comm]

/-- The connected components of a graph, by their first nodes and each in order. -/
structure Components (G : SimpleGraph (Fin n)) (groups : List (List (Fin n))) : Prop where
  component : ∀ c ∈ groups, ∃ i, ∀ j, j ∈ c ↔ G.Reachable i j
  unique : ∀ i, ∃! c, c ∈ groups ∧ i ∈ c
  increasing : ∀ c ∈ groups, c.Pairwise (· < ·)
  ordered : groups.Pairwise fun c d => ∃ i ∈ c, ∀ j ∈ d, i < j
  length_eq : groups.length = Nat.card G.ConnectedComponent

theorem Components.eq_of_reachable {G : SimpleGraph (Fin n)} {groups : List (List (Fin n))}
    (h : Components G groups) {c d : List (Fin n)} (hc : c ∈ groups) (hd : d ∈ groups) {i j : Fin n}
    (hi : i ∈ c) (hj : j ∈ d) (hij : G.Reachable i j) : c = d := by
  obtain ⟨k, hk⟩ := h.component c hc
  have hjc : j ∈ c := (hk j).mpr (((hk i).mp hi).trans hij)
  exact (h.unique j).unique ⟨hc, hjc⟩ ⟨hd, hj⟩

section Connected

variable {s : DisjointSets n} {G : SimpleGraph (Fin n)}
  (h : ∀ x y, s.root x = s.root y ↔ G.Reachable x y)

include h

theorem length_groups : (groups s).length = Nat.card G.ConnectedComponent := by
  let mk : {r // s.root r = r} → G.ConnectedComponent := fun r => G.connectedComponentMk r
  have hBijective : Function.Bijective mk := by
    constructor
    · rintro ⟨x, hx⟩ ⟨y, hy⟩ hxy
      have hRoot := (h x y).mpr (SimpleGraph.ConnectedComponent.eq.mp hxy)
      exact Subtype.ext (by rwa [hx, hy] at hRoot)
    · intro c
      induction c using SimpleGraph.ConnectedComponent.ind with
      | h x =>
        refine ⟨⟨s.root x, s.root_root x⟩, SimpleGraph.ConnectedComponent.eq.mpr ?_⟩
        exact (h _ x).mp (s.root_root x)
  rw [← Nat.card_eq_of_bijective mk hBijective, groups_eq, byRoot, List.length_map, List.length_map,
    Nat.card_eq_fintype_card, Fintype.card_subtype]
  rfl

theorem components_groups : Components G (groups s) where
  component c hc := by
    obtain ⟨r, hr, rfl⟩ := mem_groups.mp hc
    refine ⟨r, fun j => ?_⟩
    rw [← h, hr, List.mem_filter, decide_eq_true_eq, eq_comm (a := r)]
    exact and_iff_right (List.mem_finRange j)
  unique i := by
    refine ⟨(List.finRange n).filter fun j => s.root j = s.root i, ⟨?_, by simp⟩, ?_⟩
    · exact mem_groups.mpr ⟨s.root i, s.root_root i, rfl⟩
    · rintro c ⟨hc, hi⟩
      obtain ⟨r, hr, rfl⟩ := mem_groups.mp hc
      rw [of_decide_eq_true (List.mem_filter.mp hi).2]
  increasing c hc := by
    obtain ⟨r, hr, rfl⟩ := mem_groups.mp hc
    exact (List.pairwise_lt_finRange n).filter _
  ordered := by
    rw [groups_eq, byRoot, List.map_map, List.pairwise_map]
    refine ((List.pairwise_lt_finRange n).filter _).imp_of_mem ?_
    intro r q hr _ hrq
    refine ⟨r, by simpa using hr, fun j hj => lt_of_lt_of_le hrq ?_⟩
    have hRoot : s.root j = q := by simpa using hj
    exact hRoot ▸ s.root_le j
  length_eq := length_groups h

end Connected

theorem eqvGen_iff_reachable {related : Fin n → Fin n → Prop} (hSymm : ∀ i j, related i j → related j i)
    {i j : Fin n} : EqvGen (fun x y => x < y ∧ related x y) i j ↔
      (SimpleGraph.fromRel related).Reachable i j := by
  constructor
  · intro h
    induction h with
    | rel x y hxy =>
      exact SimpleGraph.Adj.reachable ((SimpleGraph.fromRel_adj related x y).mpr ⟨hxy.1.ne, .inl hxy.2⟩)
    | refl x => exact .refl x
    | symm x y _ ih => exact ih.symm
    | trans x y z _ _ ih₁ ih₂ => exact ih₁.trans ih₂
  · rw [SimpleGraph.reachable_iff_reflTransGen]
    intro h
    induction h with
    | refl => exact .refl i
    | @tail x y _ hxy ih =>
      obtain ⟨hne, hRelated⟩ := (SimpleGraph.fromRel_adj related x y).mp hxy
      refine ih.trans _ _ _ ?_
      rcases lt_or_gt_of_ne hne with hLt | hLt
      · exact .rel x y ⟨hLt, hRelated.elim id (hSymm y x)⟩
      · exact (EqvGen.rel y x ⟨hLt, hRelated.elim (hSymm x y) id⟩).symm _ _

end Cluster

namespace Entity

/-- Two entities share a dependency or one of them mentions the other by name. -/
def Kin (a b : Entity) : Prop :=
  (∃ d, d ∈ a.dependencies ∧ d ∈ b.dependencies) ∨ b.name ∈ a.references ∨ a.name ∈ b.references

theorem related_iff {a b : Entity} : a.related b = true ↔ Kin a b := by
  simp [related, Kin, or_assoc]

theorem Kin.symm {a b : Entity} (h : Kin a b) : Kin b a := by
  rcases h with ⟨d, ha, hb⟩ | h | h
  · exact .inl ⟨d, hb, ha⟩
  · exact .inr (.inr h)
  · exact .inr (.inl h)

end Entity

namespace SourceFile

def kinship (f : SourceFile) : SimpleGraph (Fin f.entities.length) :=
  .fromRel fun i j => Entity.Kin f.entities[i] f.entities[j]

theorem reachable_of_kin {f : SourceFile} {i j : Fin f.entities.length}
    (h : Entity.Kin f.entities[i] f.entities[j]) : f.kinship.Reachable i j := by
  by_cases hij : i = j
  · exact hij ▸ .refl i
  · exact SimpleGraph.Adj.reachable ((SimpleGraph.fromRel_adj _ i j).mpr ⟨hij, .inl h⟩)

theorem exists_components (f : SourceFile) : ∃ groups, Cluster.Components f.kinship groups ∧
    f.entityGroups = groups.map fun members => members.map fun i => f.entities[i] := by
  let related (i j : Fin f.entities.length) : Bool := f.entities[i].related f.entities[j]
  refine ⟨Cluster.groups (Cluster.connect related), ?_, rfl⟩
  apply Cluster.components_groups
  intro i j
  rw [Cluster.joins_connect]
  simp only [related, Entity.related_iff]
  exact Cluster.eqvGen_iff_reachable fun i j => Entity.Kin.symm

/-- What a cluster says about its members. -/
structure Describes (f : SourceFile) (c : Cluster) (members : List (Fin f.entities.length)) : Prop where
  entities : c.entities = members.map fun i => f.entities[i].name
  dependencies : ∀ d, d ∈ c.dependencies ↔ ∃ i ∈ members, d ∈ f.entities[i].dependencies
  increasing : c.dependencies.Pairwise (· < ·)

theorem describes_ofMembers (f : SourceFile) (members : List (Fin f.entities.length)) :
    f.Describes (.ofMembers f.path (members.map fun i => f.entities[i])) members where
  entities := by simp [Cluster.ofMembers]
  dependencies d := by simp [Cluster.ofMembers, Text.mem_setOf]
  increasing := Text.setOf_pairwise _

theorem mixed?_eq_some_iff {f : SourceFile} {threshold : Nat} {m : MixedFile} :
    f.mixed? threshold = some m ↔ threshold ≤ f.entities.length ∧ 2 ≤ f.entityGroups.length ∧
      m = ⟨f.path, f.entities.length, f.entityGroups.map (Cluster.ofMembers f.path)⟩ := by
  unfold mixed?
  by_cases hMany : threshold ≤ f.entities.length
  · by_cases hGroups : 2 ≤ f.entityGroups.length
    · simp [not_lt.mpr hMany, not_lt.mpr hGroups, hMany, hGroups, eq_comm]
    · simp [hGroups, not_le.mp hGroups]
  · simp [hMany, not_le.mp hMany]

/-- When a file is mixed, and what its clusters are. -/
structure SplitsIntoComponents (f : SourceFile) (threshold : Nat) : Prop where
  mixed_iff : (∃ m, f.mixed? threshold = some m) ↔
    threshold ≤ f.entities.length ∧ 2 ≤ Nat.card f.kinship.ConnectedComponent
  clusters : ∀ m, f.mixed? threshold = some m → ∃ groups, Cluster.Components f.kinship groups ∧
    List.Forall₂ f.Describes m.clusters groups ∧
    ∀ c ∈ groups, ∀ d ∈ groups, c ≠ d → ∀ i ∈ c, ∀ j ∈ d, ¬ Entity.Kin f.entities[i] f.entities[j]

theorem mixed_splits_into_components (f : SourceFile) (threshold : Nat) : f.SplitsIntoComponents threshold := by
  obtain ⟨groups, hGroups, hEntities⟩ := f.exists_components
  have hLength : f.entityGroups.length = Nat.card f.kinship.ConnectedComponent := by
    rw [hEntities, List.length_map, hGroups.length_eq]
  constructor
  case mixed_iff =>
    simp only [mixed?_eq_some_iff, hLength, exists_and_left, exists_eq, and_true]
  case clusters =>
    intro m hm
    obtain ⟨-, -, rfl⟩ := mixed?_eq_some_iff.mp hm
    refine ⟨groups, hGroups, ?_, ?_⟩
    · rw [hEntities, List.map_map, List.forall₂_map_left_iff, List.forall₂_same]
      exact fun members _ => f.describes_ofMembers members
    · intro c hc d hd hne i hi j hj hKin
      exact hne (hGroups.eq_of_reachable hc hd hi hj (reachable_of_kin hKin))

end SourceFile

end ModuleAtlas
