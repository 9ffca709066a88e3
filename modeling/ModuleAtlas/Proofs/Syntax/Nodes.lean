import ModuleAtlas.Proofs.Syntax.Cursor

/-!
# The nodes of a tree

`nodes` lists a node and everything below it, parents before children. A walk that never
leaves anything out goes through this list; the name tokens are the names in it.
-/

namespace ModuleAtlas.Node

set_option autoImplicit false

mutual

def nodes : Node → List Node
  | .leaf k r s t => [.leaf k r s t]
  | .branch k r s e cs => .branch k r s e cs :: nodesAll cs

def nodesAll : List Node → List Node
  | [] => []
  | c :: rest => nodes c ++ nodesAll rest

end

theorem nodesAll_eq (cs : List Node) : nodesAll cs = cs.flatMap nodes := by
  induction cs with
  | nil => rfl
  | cons c cs ih => rw [nodesAll, ih, List.flatMap_cons]

theorem nodes_eq (n : Node) : n.nodes = n :: n.children.flatMap nodes := by
  cases n with
  | leaf k r s t => rfl
  | branch k r s e cs => rw [nodes, nodesAll_eq, children]

theorem self_mem_nodes (n : Node) : n ∈ n.nodes := by
  rw [nodes_eq]
  exact List.mem_cons_self

theorem mem_nodes_of_child {n c m : Node} (hc : c ∈ n.children) (hm : m ∈ c.nodes) : m ∈ n.nodes := by
  rw [nodes_eq]
  exact List.mem_cons_of_mem _ (List.mem_flatMap_of_mem hc hm)

section Below

variable {m k : Node}

mutual

theorem mem_nodes_trans (n : Node) (hm : m ∈ n.nodes) (hk : k ∈ m.nodes) : k ∈ n.nodes := by
  cases n with
  | leaf _ r s t => rwa [List.mem_singleton.mp hm] at hk
  | branch _ r s e cs =>
    rcases List.mem_cons.mp hm with rfl | hm
    · exact hk
    · exact List.mem_cons_of_mem _ (mem_nodesAll_trans cs hm hk)

theorem mem_nodesAll_trans (cs : List Node) (hm : m ∈ nodesAll cs) (hk : k ∈ m.nodes) :
    k ∈ nodesAll cs := by
  cases cs with
  | nil => cases hm
  | cons c cs =>
    rcases List.mem_append.mp hm with hm | hm
    · exact List.mem_append_left _ (mem_nodes_trans c hm hk)
    · exact List.mem_append_right _ (mem_nodesAll_trans cs hm hk)

end

end Below

section Walk

variable {σ : Type}

mutual

theorem walkUnder_eq_foldl (act : Node → σ → σ) (parent : Option Node) (n : Node) (state : σ) :
    walkUnder (fun _ m state => (act m state, .descend)) parent n state =
      n.nodes.foldl (fun state m => act m state) state := by
  cases n with
  | leaf k r s t => rfl
  | branch k r s e cs =>
    rw [walkUnder, nodes, List.foldl_cons]
    exact walkAll_eq_foldl act _ cs _

theorem walkAll_eq_foldl (act : Node → σ → σ) (parent : Node) (cs : List Node) (state : σ) :
    walkAll (fun _ m state => (act m state, .descend)) parent cs state =
      (nodesAll cs).foldl (fun state m => act m state) state := by
  cases cs with
  | nil => rfl
  | cons c rest =>
    rw [walkAll, walkUnder_eq_foldl act _ c, walkAll_eq_foldl act parent rest, nodesAll,
      List.foldl_append]

end

mutual

/-- What every visit of a node of the tree keeps holds after the walk, whatever is left out. -/
theorem walkUnder_keeps {visit : Option Node → Node → σ → σ × Step} {Kept : σ → Prop}
    (parent : Option Node) (n : Node)
    (hVisit : ∀ above, ∀ m ∈ n.nodes, ∀ state, Kept state → Kept (visit above m state).1)
    (state : σ) (hState : Kept state) : Kept (walkUnder visit parent n state) := by
  have hSelf := hVisit parent n n.self_mem_nodes state hState
  cases n with
  | leaf k r s t => exact hSelf
  | branch k r s e cs =>
    rw [walkUnder]
    split
    · rename_i after hAfter
      rwa [hAfter] at hSelf
    · rename_i after hAfter
      rw [hAfter] at hSelf
      exact walkAll_keeps _ cs (fun above m hm => hVisit above m (List.mem_cons_of_mem _ hm)) after hSelf

theorem walkAll_keeps {visit : Option Node → Node → σ → σ × Step} {Kept : σ → Prop}
    (parent : Node) (cs : List Node)
    (hVisit : ∀ above, ∀ m ∈ nodesAll cs, ∀ state, Kept state → Kept (visit above m state).1)
    (state : σ) (hState : Kept state) : Kept (walkAll visit parent cs state) := by
  cases cs with
  | nil => exact hState
  | cons c rest =>
    rw [walkAll]
    refine walkAll_keeps parent rest (fun above m hm => hVisit above m (List.mem_append_right _ hm)) _ ?_
    exact walkUnder_keeps _ c (fun above m hm => hVisit above m (List.mem_append_left _ hm)) state hState

end

end Walk

theorem foldl_found {α β : Type} (p : α → Bool) (f : α → β) (xs : List α) (found : List β) :
    xs.foldl (fun found x => if p x then f x :: found else found) found =
      ((xs.filter p).map f).reverse ++ found := by
  induction xs generalizing found with
  | nil => rfl
  | cons x xs ih =>
    rw [List.foldl_cons, ih]
    by_cases hx : p x = true
    · simp [hx]
    · simp [hx]

theorem tokens_eq (n : Node) :
    n.tokens = (n.nodes.filter isName).map fun m => ⟨m.text, m.start⟩ := by
  have hVisit : (fun (m : Node) (found : List Token) =>
      if (fun _ => false) m = true then (found, Step.skip)
      else if m.isName then (⟨m.text, m.start⟩ :: found, Step.descend) else (found, Step.descend)) =
      fun m found => (if m.isName then ⟨m.text, m.start⟩ :: found else found, Step.descend) := by
    funext m found
    cases hName : m.isName <;> simp
  rw [tokens, tokensBut, walk_eq, hVisit, walkUnder_eq_foldl, foldl_found]
  simp

end ModuleAtlas.Node
