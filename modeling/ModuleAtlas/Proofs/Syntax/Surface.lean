import ModuleAtlas.Proofs.Syntax.Placement

/-!
# The surface of a tree

A walk that leaves out what is below the nodes of a class sees the surface of the tree: the nodes
outside the class, and the outermost nodes of the class, which stand apart from each other.
-/

namespace ModuleAtlas.Node

set_option autoImplicit false

mutual

def surface (p : Node → Bool) : Node → List Node
  | .leaf k r s t => [.leaf k r s t]
  | .branch k r s e cs => .branch k r s e cs :: if p (.branch k r s e cs) then [] else surfaceAll p cs

def surfaceAll (p : Node → Bool) : List Node → List Node
  | [] => []
  | c :: rest => surface p c ++ surfaceAll p rest

end

def outermost (p : Node → Bool) (n : Node) : List Node := (n.surface p).filter p

/-- The first node leads down to the second without a node of the class, the two included. -/
inductive Outside (p : Node → Bool) : Node → Node → Prop
  | here {n : Node} (h : p n = false) : Outside p n n
  | child {n c m : Node} (h : p n = false) (hc : c ∈ n.children) (hm : Outside p c m) : Outside p n m

section Surface

variable {p : Node → Bool} {n m : Node}

theorem surfaceAll_eq (cs : List Node) : surfaceAll p cs = cs.flatMap (surface p) := by
  induction cs with
  | nil => rfl
  | cons c cs ih => rw [surfaceAll, ih, List.flatMap_cons]

theorem surface_eq (n : Node) :
    n.surface p = n :: if p n then [] else n.children.flatMap (surface p) := by
  cases n with
  | leaf k r s t => cases p (.leaf k r s t) <;> rfl
  | branch k r s e cs => rw [surface, surfaceAll_eq, children]

theorem self_mem_surface (n : Node) : n ∈ n.surface p := by
  rw [surface_eq]
  exact List.mem_cons_self

mutual

theorem mem_nodes_of_surface (n : Node) (hm : m ∈ n.surface p) : m ∈ n.nodes := by
  cases n with
  | leaf k r s t => exact hm
  | branch k r s e cs =>
    rw [surface] at hm
    rcases List.mem_cons.mp hm with rfl | hm
    · exact self_mem_nodes _
    · split at hm
      · cases hm
      · exact List.mem_cons_of_mem _ (mem_nodesAll_of_surface cs hm)

theorem mem_nodesAll_of_surface (cs : List Node) (hm : m ∈ surfaceAll p cs) : m ∈ nodesAll cs := by
  cases cs with
  | nil => cases hm
  | cons c cs =>
    rcases List.mem_append.mp hm with hm | hm
    · exact List.mem_append_left _ (mem_nodes_of_surface c hm)
    · exact List.mem_append_right _ (mem_nodesAll_of_surface cs hm)

end

mutual

theorem outside_of_surface (n : Node) (hm : m ∈ n.surface p) (hp : p m = false) : Outside p n m := by
  cases n with
  | leaf k r s t =>
    cases List.mem_singleton.mp hm
    exact .here hp
  | branch k r s e cs =>
    rw [surface] at hm
    rcases List.mem_cons.mp hm with rfl | hm
    · exact .here hp
    · split at hm
      · cases hm
      case isFalse hn =>
        obtain ⟨c, hc, hOutside⟩ := outside_of_surfaceAll cs hm hp
        exact .child (Bool.eq_false_iff.mpr hn) hc hOutside

theorem outside_of_surfaceAll (cs : List Node) (hm : m ∈ surfaceAll p cs) (hp : p m = false) :
    ∃ c ∈ cs, Outside p c m := by
  cases cs with
  | nil => cases hm
  | cons c cs =>
    rcases List.mem_append.mp hm with hm | hm
    · exact ⟨c, List.mem_cons_self, outside_of_surface c hm hp⟩
    · obtain ⟨d, hd, hOutside⟩ := outside_of_surfaceAll cs hm hp
      exact ⟨d, List.mem_cons_of_mem c hd, hOutside⟩

end

theorem outside_iff : Outside p n m ↔ m ∈ n.surface p ∧ p m = false := by
  constructor
  · intro h
    induction h with
    | here h => exact ⟨self_mem_surface _, h⟩
    | child h hc _ ih =>
      rw [surface_eq, h]
      exact ⟨List.mem_cons_of_mem _ (List.mem_flatMap_of_mem hc ih.1), ih.2⟩
  · rintro ⟨hm, hp⟩
    exact outside_of_surface n hm hp

mutual

theorem surface_eq_nodes (n : Node) (h : ∀ m ∈ n.nodes, p m = false) : n.surface p = n.nodes := by
  cases n with
  | leaf k r s t => rfl
  | branch k r s e cs =>
    rw [surface, h _ (self_mem_nodes _), nodes]
    exact congrArg _ (surfaceAll_eq_nodesAll cs fun m hm => h m (List.mem_cons_of_mem _ hm))

theorem surfaceAll_eq_nodesAll (cs : List Node) (h : ∀ m ∈ nodesAll cs, p m = false) :
    surfaceAll p cs = nodesAll cs := by
  cases cs with
  | nil => rfl
  | cons c cs =>
    obtain ⟨hc, hcs⟩ := List.forall_mem_append.mp h
    rw [surfaceAll, surface_eq_nodes c hc, surfaceAll_eq_nodesAll cs hcs, nodesAll]

end

theorem Outside.trans {c : Node} (h : Outside p n c) (hm : Outside p c m) : Outside p n m := by
  induction h with
  | here h => exact hm
  | child h hc _ ih => exact .child h hc (ih hm)

theorem Outside.of_mem {c : Node} (h : Outside p n c) (hFree : ∀ m ∈ c.nodes, p m = false)
    (hm : m ∈ c.nodes) : Outside p n m :=
  h.trans (outside_iff.mpr ⟨by rwa [surface_eq_nodes c hFree], hFree m hm⟩)

mutual

/-- Outermost nodes stand apart from each other. -/
theorem WellFormed.pairwise_outermost (n : Node) (h : n.WellFormed) :
    (n.outermost p).Pairwise fun m k => m.stop ≤ k.start := by
  unfold outermost
  cases n with
  | leaf k r s t => exact (List.pairwise_singleton _ _).filter _
  | branch k r s e cs =>
    rw [surface]
    split
    · exact (List.pairwise_singleton _ _).filter _
    case isFalse hp =>
      rw [List.filter_cons_of_neg hp]
      exact WellFormed.pairwise_outermost_all cs (wellFormedList_iff.mpr (wellFormed_iff.mp h).2)
        h.pairwise_children

theorem WellFormed.pairwise_outermost_all (cs : List Node) (h : WellFormedList cs)
    (hApart : cs.Pairwise fun c d => c.stop ≤ d.start) :
    ((surfaceAll p cs).filter p).Pairwise fun m k => m.stop ≤ k.start := by
  cases cs with
  | nil => exact .nil
  | cons c cs =>
    obtain ⟨hFirst, hRest⟩ := List.pairwise_cons.mp hApart
    rw [surfaceAll, List.filter_append, List.pairwise_append]
    refine ⟨WellFormed.pairwise_outermost c h.1, WellFormed.pairwise_outermost_all cs h.2 hRest, ?_⟩
    intro m hm k hk
    have hm := h.1.inside (mem_nodes_of_surface c (List.mem_filter.mp hm).1)
    obtain ⟨-, d, hd, hk⟩ := WellFormed.below_one cs h.2 (mem_nodesAll_of_surface cs (List.mem_filter.mp hk).1)
    exact Nat.le_trans hm.stop_le (Nat.le_trans (hFirst d hd) hk.start_le)

end

end Surface

section Walk

variable {σ β : Type} {p : Node → Bool} {visit : Option Node → Node → σ → σ × Step} {view : σ → List β}
  {found : Node → Option β}

mutual

/-- A walk that stops at a class and puts down what each node gives collects from the surface. -/
theorem walkUnder_surface
    (hStep : ∀ parent m state, (visit parent m state).2 = if p m then .skip else .descend)
    (hView : ∀ parent m state, view (visit parent m state).1 = (found m).toList ++ view state)
    (parent : Option Node) (n : Node) (state : σ) :
    view (walkUnder visit parent n state) = ((n.surface p).filterMap found).reverse ++ view state := by
  cases n with
  | leaf k r s t =>
    rw [walkUnder, hView, surface]
    cases hFound : found (.leaf k r s t) <;> simp [hFound]
  | branch k r s e cs =>
    have hHere := hView parent (.branch k r s e cs) state
    have hNext := hStep parent (.branch k r s e cs) state
    rw [walkUnder, surface]
    split
    case h_1 after hVisit =>
      rw [hVisit] at hHere hNext
      rw [if_pos (by by_contra hp; simp [hp] at hNext), hHere]
      cases hFound : found (.branch k r s e cs) <;> simp [hFound]
    case h_2 after hVisit =>
      rw [hVisit] at hHere hNext
      rw [if_neg (by intro hp; simp [hp] at hNext), walkAll_surface hStep hView, hHere]
      cases hFound : found (.branch k r s e cs) <;> simp [hFound]

theorem walkAll_surface
    (hStep : ∀ parent m state, (visit parent m state).2 = if p m then .skip else .descend)
    (hView : ∀ parent m state, view (visit parent m state).1 = (found m).toList ++ view state)
    (parent : Node) (cs : List Node) (state : σ) :
    view (walkAll visit parent cs state) = ((surfaceAll p cs).filterMap found).reverse ++ view state := by
  cases cs with
  | nil => rfl
  | cons c cs =>
    rw [walkAll, walkAll_surface hStep hView parent cs, walkUnder_surface hStep hView, surfaceAll,
      List.filterMap_append, List.reverse_append, List.append_assoc]

end

end Walk

theorem mem_tokensBut {p : Node → Bool} {n : Node} {token : Token} :
    token ∈ n.tokensBut p ↔ ∃ m, Outside p n m ∧ m.isName = true ∧ ⟨m.text, m.start⟩ = token := by
  let found (m : Node) : Option Token :=
    if p m then none else if m.isName then some ⟨m.text, m.start⟩ else none
  have hFound : ∀ m, found m = some token ↔ p m = false ∧ m.isName = true ∧ ⟨m.text, m.start⟩ = token := by
    intro m
    cases hp : p m <;> cases hName : m.isName <;> simp [found, hp, hName]
  have hTokens : n.tokensBut p = (n.surface p).filterMap found := by
    rw [tokensBut, walk_eq]
    refine List.reverse_eq_iff.mpr (Eq.trans (@walkUnder_surface _ _ p _ id found ?_ ?_ none n []) ?_)
    · intro parent m state
      cases p m <;> cases m.isName <;> rfl
    · intro parent m state
      cases hp : p m <;> cases hName : m.isName <;> simp [found, hp, hName]
    · exact List.append_nil _
  rw [hTokens, List.mem_filterMap]
  simp only [hFound, outside_iff, and_assoc]

end ModuleAtlas.Node
