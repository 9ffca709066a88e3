import ModuleAtlas.Proofs.File.Exports
import Mathlib.Algebra.Ring.Nat
import Mathlib.Data.List.Flatten

/-!
# Complexity by parts

The complexity of a tree is one more than the number of its decisions, so the decisions of a tree
are its own and those of its children. The entities of a file are weighed by parts of its tree that
do not overlap: by the declaring node, by the initial value of a variable, or by the declarator of
one that has none. Hence no decision is counted for two entities.
-/

namespace ModuleAtlas

set_option autoImplicit false

namespace Node

def decisions (n : Node) : List Node := n.nodes.filter isDecision

theorem complexity_eq (n : Node) : n.complexity = n.decisions.length + 1 := by
  have hCount : ∀ (ms : List Node) (count : Nat),
      ms.foldl (fun count m => if m.isDecision then count + 1 else count) count =
        (ms.filter isDecision).length + count := by
    intro ms
    induction ms with
    | nil => simp
    | cons m ms ih =>
      intro count
      rw [List.foldl_cons, ih]
      cases hm : m.isDecision with
      | false => simp [hm]
      | true => simp [hm]; omega
  have hFold := walkUnder_eq_foldl (fun m count => if m.isDecision then count + 1 else count) none n 1
  rw [complexity, walk_eq, hFold, hCount, decisions]

theorem decisions_eq (n : Node) :
    n.decisions = (if n.isDecision then [n] else []) ++ n.children.flatMap decisions := by
  rw [decisions, nodes_eq, List.filter_cons, List.filter_flatMap]
  split <;> rfl

theorem complexity_children (n : Node) : n.complexity - 1 =
    (if n.isDecision then 1 else 0) + (n.children.map fun c => c.complexity - 1).sum := by
  simp only [complexity_eq, Nat.add_sub_cancel]
  rw [n.decisions_eq, List.length_append, List.length_flatMap]
  split <;> rfl

section Below

variable {m : Node}

mutual

theorem nodes_sublist (n : Node) (hm : m ∈ n.nodes) : m.nodes.Sublist n.nodes := by
  cases n with
  | leaf k r s t =>
    cases List.mem_singleton.mp hm
    exact List.Sublist.refl _
  | branch k r s e cs =>
    rcases List.mem_cons.mp hm with rfl | hm
    · exact List.Sublist.refl _
    · exact (nodesAll_sublist cs hm).cons _

theorem nodesAll_sublist (cs : List Node) (hm : m ∈ nodesAll cs) : m.nodes.Sublist (nodesAll cs) := by
  cases cs with
  | nil => cases hm
  | cons c cs =>
    rcases List.mem_append.mp hm with hm | hm
    · exact (nodes_sublist c hm).trans (List.sublist_append_left _ _)
    · exact (nodesAll_sublist cs hm).trans (List.sublist_append_right _ _)

end

theorem complexity_le {n : Node} (hm : m ∈ n.nodes) : m.complexity ≤ n.complexity := by
  rw [complexity_eq, complexity_eq]
  exact Nat.succ_le_succ ((nodes_sublist n hm).filter _).length_le

end Below

end Node

open Node

/-- The complexities of the entities are those of parts of the given nodes that do not overlap. -/
def DrawnApart (es : List Entity) (ns : List Node) : Prop :=
  ∃ bodies : List Node, es.map Entity.complexity = bodies.map Node.complexity ∧
    (bodies.flatMap nodes).Sublist ns

namespace DrawnApart

variable {es fs : List Entity} {ns ms : List Node}

theorem nil (ns : List Node) : DrawnApart [] ns := ⟨[], rfl, List.nil_sublist ns⟩

theorem toList {o : Option Entity} {n : Node}
    (h : ∀ e ∈ o, ∃ body ∈ n.nodes, e.complexity = body.complexity) : DrawnApart o.toList n.nodes := by
  cases o with
  | none => exact nil _
  | some e =>
    obtain ⟨body, hBody, hComplexity⟩ := h e rfl
    refine ⟨[body], by simp [hComplexity], ?_⟩
    simpa using nodes_sublist n hBody

theorem widen (h : DrawnApart es ns) (hSublist : ns.Sublist ms) : DrawnApart es ms := by
  obtain ⟨bodies, hComplexity, hBodies⟩ := h
  exact ⟨bodies, hComplexity, hBodies.trans hSublist⟩

theorem append (h : DrawnApart es ns) (h' : DrawnApart fs ms) : DrawnApart (es ++ fs) (ns ++ ms) := by
  obtain ⟨bodies, hComplexity, hBodies⟩ := h
  obtain ⟨bodies', hComplexity', hBodies'⟩ := h'
  refine ⟨bodies ++ bodies', ?_, ?_⟩
  · rw [List.map_append, List.map_append, hComplexity, hComplexity']
  · rw [List.flatMap_append]
    exact hBodies.append hBodies'

theorem flatMap {drawn : Node → List Entity} {cs : List Node}
    (h : ∀ c ∈ cs, DrawnApart (drawn c) c.nodes) : DrawnApart (cs.flatMap drawn) (cs.flatMap nodes) := by
  induction cs with
  | nil => exact nil _
  | cons c cs ih =>
    obtain ⟨hc, hcs⟩ := List.forall_mem_cons.mp h
    exact hc.append (ih hcs)

theorem below {drawn : Node → List Entity} {n : Node} {cs : List Node} (hcs : cs.Sublist n.children)
    (h : ∀ c ∈ cs, DrawnApart (drawn c) c.nodes) : DrawnApart (cs.flatMap drawn) n.nodes := by
  apply (flatMap h).widen
  rw [n.nodes_eq]
  exact (hcs.flatMap nodes).cons n

theorem sum_le {n : Node} (h : DrawnApart es n.nodes) :
    (es.map fun e => e.complexity - 1).sum ≤ n.complexity - 1 := by
  obtain ⟨bodies, hComplexity, hBodies⟩ := h
  have hSum : (es.map fun e => e.complexity - 1) = bodies.map fun b => b.decisions.length := by
    have hLess := congrArg (List.map (· - 1)) hComplexity
    rw [List.map_map, List.map_map] at hLess
    refine hLess.trans (List.map_congr_left fun b _ => ?_)
    rw [Function.comp_apply, complexity_eq, Nat.add_sub_cancel]
  calc
    (es.map fun e => e.complexity - 1).sum = (bodies.flatMap decisions).length := by
      rw [hSum, List.length_flatMap]
    _ = ((bodies.flatMap nodes).filter isDecision).length := by
      rw [List.filter_flatMap]
      rfl
    _ ≤ n.decisions.length := (hBodies.filter _).length_le
    _ = n.complexity - 1 := by rw [complexity_eq, Nat.add_sub_cancel]

end DrawnApart

namespace Node

variable (lines : LineTable) (bindings : List String)

theorem value_mem_nodes (d : Node) : (d.child? .value).getD d ∈ d.nodes := by
  cases hValue : d.child? .value with
  | none => exact d.self_mem_nodes
  | some v => exact child_mem_nodes hValue

theorem drawnApart_declaredEntities (standing : Standing) (outer decl : Node) :
    DrawnApart (declaredEntities lines bindings standing outer decl) decl.nodes := by
  unfold declaredEntities
  split
  case h_1 | h_2 | h_3 | h_4 =>
    refine .toList fun e he => ⟨decl, decl.self_mem_nodes, ?_⟩
    obtain ⟨name, -, rfl⟩ := Option.map_eq_some_iff.mp he
    rfl
  case h_5 | h_6 =>
    rw [List.filterMap_eq_flatMap_toList]
    refine .below (List.filter_sublist.trans List.filter_sublist) fun d _ => .toList fun e he => ?_
    refine ⟨(d.child? .value).getD d, d.value_mem_nodes, ?_⟩
    obtain ⟨name, -, hRest⟩ := Option.bind_eq_some_iff.mp he
    obtain ⟨kind, -, hRest⟩ := Option.bind_eq_some_iff.mp hRest
    cases hRest
    rfl
  case h_7 => exact .nil _

theorem drawnApart_valueEntities (outer value : Node) :
    DrawnApart (valueEntities lines bindings outer value) value.nodes := by
  have hEntity : ∀ e : Entity, e.complexity = value.unwrapped.complexity → DrawnApart [e] value.nodes :=
    fun e he => @DrawnApart.toList (some e) value fun _ hSome =>
      ⟨value.unwrapped, value.unwrapped_mem_nodes, Option.some.inj hSome ▸ he⟩
  unfold valueEntities
  dsimp only
  split
  case h_1 => exact .nil _
  case h_2 =>
    split
    case h_1 | h_2 | h_3 => exact hEntity _ rfl
    case h_4 => exact .nil _

theorem drawnApart_statementEntities (n : Node) :
    DrawnApart (n.statementEntities lines bindings) n.nodes := by
  unfold statementEntities
  split
  · exact drawnApart_declaredEntities lines bindings _ n n
  · split
    case h_1 decl hDecl =>
      exact (drawnApart_declaredEntities lines bindings _ n decl).widen (nodes_sublist n (child_mem_nodes hDecl))
    case h_2 =>
      split
      case h_1 value hValue =>
        exact (drawnApart_valueEntities lines bindings n value).widen (nodes_sublist n (child_mem_nodes hValue))
      case h_2 => exact .nil _

theorem drawnApart_entities (root : Node) : DrawnApart (root.entities lines bindings) root.nodes :=
  .below List.filter_sublist fun c _ => drawnApart_statementEntities lines bindings c

end Node

namespace SourceFile

theorem complexity_adds_up :
    (∀ n : Node, n.complexity - 1 =
      (if n.isDecision then 1 else 0) + (n.children.map fun c => c.complexity - 1).sum) ∧
    (∀ n : Node, ∀ m ∈ n.nodes, 1 ≤ m.complexity ∧ m.complexity ≤ n.complexity) ∧
    ∀ path source f, parse path source = .ok f → DrawnApart f.entities f.tree.nodes ∧
      (f.entities.map fun e => e.complexity - 1).sum ≤ f.tree.complexity - 1 := by
  refine ⟨complexity_children, fun n m hm => ⟨?_, complexity_le hm⟩, fun path source f h => ?_⟩
  · rw [complexity_eq]
    omega
  · have hDrawn : DrawnApart f.entities f.tree.nodes := by
      obtain ⟨language, tree, rfl⟩ := exists_ofTree_of_parse h
      exact drawnApart_entities _ _ tree
    exact ⟨hDrawn, hDrawn.sum_le⟩

/-- Entities of all forms that weigh something, and a decision that belongs to none of them. -/
def weighed : Source :=
  .ofString ("if (a) {}\nconst f = a && b, g = c => c ? 1 : 2;\n" ++
    "export function h() { while (x) { y ||= 1; } }\nexport default (class K { m() { for (;;) {} } });\n")

set_option maxRecDepth 100000 in
theorem weighed_complexity_adds_up : ∃ f, parse (.ofString "/app/a.js") weighed = .ok f ∧
    (f.entities.map Entity.complexity = [2, 2, 3, 2] ∧ f.tree.complexity = 7) ∧
    DrawnApart f.entities f.tree.nodes ∧
    (f.entities.map fun e => e.complexity - 1).sum ≤ f.tree.complexity - 1 :=
  Exists.imp (fun f h => ⟨h.1, h.2, complexity_adds_up.2.2 _ _ f h.1⟩)
    (exists_parsed (.ofString "/app/a.js") weighed (by decide +kernel))

end SourceFile

end ModuleAtlas
