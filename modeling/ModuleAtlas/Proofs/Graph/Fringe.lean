import ModuleAtlas.Graph.Route
import ModuleAtlas.Proofs.Graph.Chain
import Mathlib.Tactic.Common

/-!
# The breadth-first search

The nodes that were met are kept in the order in which they were met. The invariant assigns
each of them a chain, which the links spell out backwards. Chains come in increasing order,
shorter ones first and then node by node, and each is the least one to its node: a node that
is met from the first waiting one is not next to any node that was expanded before, so every
chain to it passes through a node whose own chain is not before that of the waiting one.
-/

namespace ModuleAtlas.Search

open Relation Walk

set_option autoImplicit false

variable {next : Nat → List Nat} {size start : Nat}

/-- The nodes met, in order, with the chains that their links spell out. -/
structure Fringe.Charted (next : Nat → List Nat) (size start : Nat) (chain : Nat → List Nat)
    (order : List Nat) (f : Fringe) : Prop where
  size_eq : f.seen.size = size
  inside : ∀ v ∈ order, v < size
  seen_iff : ∀ v < size, f.isSeen v = true ↔ v ∈ order
  start_mem : start ∈ order
  chain_start : chain start = [start]
  before_start : f.links.before? start = none
  linked : ∀ v ∈ order, v ≠ start → ∃ u ∈ order,
    f.links.before? v = some u ∧ v ∈ next u ∧ chain v = chain u ++ [v]
  sorted : order.Pairwise fun u v => Before (chain u) (chain v)
  least : ∀ v ∈ order, ∀ c, Leads (fun v w => w ∈ next v) c start v → Precedes (chain v) c

theorem Fringe.Charted.leads {chain : Nat → List Nat} {order : List Nat} {f : Fringe}
    (h : f.Charted next size start chain order) {v : Nat} (hv : v ∈ order) :
    Leads (fun v w => w ∈ next v) (chain v) start v := by
  induction hn : (chain v).length using Nat.strongRecOn generalizing v with
  | ind n ih =>
    by_cases hStart : v = start
    · rw [hStart, h.chain_start]
      exact leads_singleton start
    · obtain ⟨u, hu, _, huv, hChain⟩ := h.linked v hv hStart
      have hLength : (chain u).length < n := by rw [← hn, hChain]; simp
      rw [hChain]
      exact (ih _ hLength hu rfl).snoc huv

theorem Fringe.Charted.retraceWithin_eq {chain : Nat → List Nat} {order : List Nat} {f : Fringe}
    (h : f.Charted next size start chain order) {v : Nat} (hv : v ∈ order) (c : List Nat) {nodes : Nat}
    (hNodes : (chain v).length ≤ nodes) : retraceWithin f.links nodes v c = some (chain v ++ c) := by
  induction nodes generalizing v c with
  | zero =>
    have hBegins := (h.leads hv).begins
    rw [List.length_eq_zero_iff.mp (Nat.le_zero.mp hNodes)] at hBegins
    cases hBegins
  | succ nodes ih =>
    rw [retraceWithin]
    by_cases hStart : v = start
    · rw [hStart, h.before_start, h.chain_start]
      rfl
    · obtain ⟨u, hu, hBefore, _, hChain⟩ := h.linked v hv hStart
      have hLength : (chain u).length ≤ nodes := by
        rw [hChain, List.length_append, List.length_singleton] at hNodes
        omega
      simp only [hBefore]
      rw [ih hu (v :: c) hLength, hChain, List.append_assoc, List.singleton_append]

theorem mem_fst_of_before? {links : Links} {u v : Nat} (h : links.before? v = some u) :
    v ∈ links.map Prod.fst := by
  obtain ⟨_, _, rfl, -⟩ := List.lookup_eq_some_iff.mp h
  simp

/-- A chain goes through linked nodes after its start, and their own chains are not longer. -/
theorem Fringe.Charted.mem_chain {chain : Nat → List Nat} {order : List Nat} {f : Fringe}
    (h : f.Charted next size start chain order) {v : Nat} (hv : v ∈ order) :
    (chain v).Nodup ∧ ∀ w ∈ chain v, w ∈ start :: f.links.map Prod.fst ∧
      (chain w).length ≤ (chain v).length := by
  induction hn : (chain v).length using Nat.strongRecOn generalizing v with
  | ind n ih =>
    by_cases hStart : v = start
    · rw [← hn, hStart, h.chain_start]
      simp [h.chain_start]
    · obtain ⟨u, hu, hBefore, _, hChain⟩ := h.linked v hv hStart
      have hLength : (chain u).length < n := by rw [← hn, hChain]; simp
      obtain ⟨hNodup, hMem⟩ := ih _ hLength hu rfl
      rw [hChain]
      refine ⟨List.nodup_append.mpr ⟨hNodup, List.nodup_singleton v, ?_⟩, fun w hw => ?_⟩
      · intro w hw x hx hwx
        rw [hwx, List.mem_singleton.mp hx] at hw
        have hShort := (hMem v hw).2
        omega
      · rcases List.mem_append.mp hw with hw | hw
        · exact ⟨(hMem w hw).1, (hMem w hw).2.trans hLength.le⟩
        · rw [List.mem_singleton.mp hw]
          refine ⟨List.mem_cons_of_mem _ ?_, hn.le⟩
          exact mem_fst_of_before? hBefore

theorem Fringe.Charted.retrace_eq {chain : Nat → List Nat} {order : List Nat} {f : Fringe}
    (h : f.Charted next size start chain order) {v : Nat} (hv : v ∈ order) (c : List Nat) :
    retrace f.links v c = some (chain v ++ c) := by
  obtain ⟨hNodup, hMem⟩ := h.mem_chain hv
  have hSubset : chain v ⊆ start :: f.links.map Prod.fst := fun w hw => (hMem w hw).1
  have hLength := (List.subperm_of_subset hNodup hSubset).length_le
  rw [List.length_cons, List.length_map] at hLength
  exact h.retraceWithin_eq hv c hLength

theorem Fringe.Charted.with_waiting {chain : Nat → List Nat} {order : List Nat} {f : Fringe}
    (h : f.Charted next size start chain order) (waiting : List Nat) :
    Fringe.Charted next size start chain order { f with waiting } :=
  ⟨h.size_eq, h.inside, h.seen_iff, h.start_mem, h.chain_start, h.before_start, h.linked, h.sorted,
    h.least⟩

/-- Between two expansions: all that is next to the expanded nodes was met, and met from them. -/
structure Fringe.Explored (next : Nat → List Nat) (size start : Nat) (chain : Nat → List Nat)
    (done : List Nat) (f : Fringe) : Prop where
  charted : f.Charted next size start chain (done ++ f.waiting)
  closed : ∀ u ∈ done, ∀ w ∈ next u, w ∈ done ++ f.waiting
  origin : ∀ v ∈ done ++ f.waiting, ∀ u, f.links.before? v = some u → u ∈ done

/-- While a node is expanded: some of what is next to it is still to be met, and chains through
the node to there come after all the others. -/
structure Fringe.Expanding (next : Nat → List Nat) (size start : Nat) (chain : Nat → List Nat)
    (done : List Nat) (node : Nat) (ws : List Nat) (f : Fringe) : Prop where
  charted : f.Charted next size start chain (done ++ node :: f.waiting)
  closed : ∀ u ∈ done, ∀ w ∈ next u, w ∈ done ++ node :: f.waiting
  origin : ∀ v ∈ done ++ node :: f.waiting, ∀ u, f.links.before? v = some u → u ∈ done ∨ u = node
  looked : ∀ w ∈ next node, w ∈ ws ∨ w ∈ done ++ node :: f.waiting
  ahead : ∀ v ∈ done ++ node :: f.waiting, ∀ w ∈ ws, Before (chain v) (chain node ++ [w])

variable {chain : Nat → List Nat} {done : List Nat} {f : Fringe}

theorem Fringe.Explored.expanding (h : f.Explored next size start chain done) {node : Nat}
    {rest : List Nat} (hWaiting : f.waiting = node :: rest) :
    Fringe.Expanding next size start chain done node (next node) { f with waiting := rest } := by
  obtain ⟨hCharted, hClosed, hOrigin⟩ := h
  rw [hWaiting] at hCharted hClosed hOrigin
  have hNode : node ∈ done ++ node :: rest := by simp
  constructor
  case charted => exact hCharted.with_waiting rest
  case closed => exact hClosed
  case origin => exact fun v hv u hu => .inl (hOrigin v hv u hu)
  case looked => exact fun w hw => .inl hw
  case ahead =>
    intro v hv w _
    by_cases hStart : v = start
    · -- the chain of the start is a single node
      rw [hStart, hCharted.chain_start]
      refine .of_length_lt ?_
      have hBegins := (hCharted.leads hNode).begins
      cases hChain : chain node with
      | nil => simp [hChain] at hBegins
      | cons x c => simp
    · obtain ⟨u, _, hBefore, _, hChain⟩ := hCharted.linked v hv hStart
      have hSorted := (List.pairwise_append.mp hCharted.sorted).2.2
      have hu := hSorted u (hOrigin v hv u hBefore) node List.mem_cons_self
      rw [hChain]
      exact hu.snoc v w

theorem Fringe.Expanding.explored {node : Nat} (h : f.Expanding next size start chain done node []) :
    f.Explored next size start chain (done ++ [node]) := by
  have hOrder : (done ++ [node]) ++ f.waiting = done ++ node :: f.waiting := by simp
  constructor
  case charted => rw [hOrder]; exact h.charted
  case closed =>
    rw [hOrder]
    intro u hu w hw
    rcases List.mem_append.mp hu with hu | hu
    · exact h.closed u hu w hw
    · rw [List.mem_singleton.mp hu] at hw
      exact (h.looked w hw).resolve_left List.not_mem_nil
  case origin =>
    rw [hOrder]
    intro v hv u hu
    rcases h.origin v hv u hu with hu | rfl
    · exact List.mem_append_left _ hu
    · simp

theorem Fringe.Expanding.precedes {node : Nat} {ws : List Nat}
    (h : f.Expanding next size start chain done node ws) {c : List Nat} {u : Nat}
    (hLeads : Leads (fun v w => w ∈ next v) c start u) (hu : u ∉ done) :
    Precedes (chain node) c := by
  -- a chain from the start to here leaves the expanded nodes at one that waits, or at `node`
  have hSorted : ∀ v ∈ node :: f.waiting, Precedes (chain node) (chain v) := by
    intro v hv
    rcases List.mem_cons.mp hv with rfl | hv
    · exact .inl rfl
    · exact .inr ((List.pairwise_cons.mp (List.pairwise_append.mp h.charted.sorted).2.1).1 v hv)
  have hMet : ∀ v ∈ done ++ node :: f.waiting, v ∉ done → ∀ d,
      Leads (fun v w => w ∈ next v) d start v → Precedes (chain node) d := by
    intro v hv hFresh d hd
    have hv' := (List.mem_append.mp hv).resolve_left hFresh
    exact (hSorted v hv').trans (h.charted.least v hv d hd)
  induction hn : c.length using Nat.strongRecOn generalizing c u with
  | ind n ih =>
    by_cases hMem : u ∈ done ++ node :: f.waiting
    · exact hMet u hMem hu c hLeads
    · rcases hLeads.cases_snoc with ⟨_, rfl⟩ | ⟨v, c', rfl, hLeads', hvu⟩
      · exact absurd h.charted.start_mem hMem
      · have hv : v ∉ done := fun hv => hMem (h.closed v hv u hvu)
        have hLength : c'.length < n := by rw [← hn]; simp
        exact (ih _ hLength hLeads' hv rfl).trans (.inr (before_snoc_self c' u))

theorem Fringe.isSeen_set {w : Nat} (hw : w < f.seen.size) (waiting : List Nat) (links : Links) (v : Nat) :
    Fringe.isSeen ⟨waiting, f.seen.setIfInBounds w true, links⟩ v = (v == w || f.isSeen v) := by
  simp only [isSeen, Array.getD_eq_getD_getElem?, Array.getElem?_setIfInBounds]
  by_cases hv : v = w
  · subst hv
    simp [hw]
  · simp [hv, Ne.symm hv]

theorem before?_cons {links : Links} {v w u : Nat} (hv : v ≠ w) :
    Links.before? ((w, u) :: links) v = links.before? v := by
  rw [Links.before?, List.lookup_cons, beq_false_of_ne hv]
  rfl

theorem Fringe.Charted.add {order : List Nat} (h : f.Charted next size start chain order)
    {node w : Nat} (hNode : node ∈ order) (hw : w ∈ next node) (hSize : w < size) (hFresh : w ∉ order)
    (hAhead : ∀ v ∈ order, Before (chain v) (chain node ++ [w]))
    (hLeast : ∀ c, Leads (fun v w => w ∈ next v) c start w → Precedes (chain node ++ [w]) c)
    (waiting : List Nat) :
    Fringe.Charted next size start (Function.update chain w (chain node ++ [w])) (order ++ [w])
      ⟨waiting, f.seen.setIfInBounds w true, (w, node) :: f.links⟩ := by
  have hne : ∀ v ∈ order, v ≠ w := fun v hv => ne_of_mem_of_not_mem hv hFresh
  have hOld : ∀ v ∈ order, Function.update chain w (chain node ++ [w]) v = chain v :=
    fun v hv => Function.update_of_ne (hne v hv) _ _
  have hNew : Function.update chain w (chain node ++ [w]) w = chain node ++ [w] :=
    Function.update_self _ _ _
  constructor
  case size_eq => simpa using h.size_eq
  case inside =>
    intro v hv
    rcases List.mem_append.mp hv with hv | hv
    · exact h.inside v hv
    · rwa [List.mem_singleton.mp hv]
  case seen_iff =>
    intro v hv
    rw [isSeen_set (by rwa [h.size_eq]), Bool.or_eq_true, beq_iff_eq, h.seen_iff v hv,
      List.mem_append, List.mem_singleton, or_comm]
  case start_mem => exact List.mem_append_left _ h.start_mem
  case chain_start => rw [hOld start h.start_mem, h.chain_start]
  case before_start => rw [before?_cons (hne start h.start_mem), h.before_start]
  case linked =>
    intro v hv hStart
    rcases List.mem_append.mp hv with hv | hv
    · obtain ⟨u, hu, hBefore, huv, hChain⟩ := h.linked v hv hStart
      refine ⟨u, List.mem_append_left _ hu, ?_, huv, ?_⟩
      · rw [before?_cons (hne v hv), hBefore]
      · rw [hOld v hv, hOld u hu, hChain]
    · rw [List.mem_singleton.mp hv]
      refine ⟨node, List.mem_append_left _ hNode, ?_, hw, ?_⟩
      · simp [Links.before?]
      · rw [hNew, hOld node hNode]
  case sorted =>
    refine List.pairwise_append.mpr ⟨?_, List.pairwise_singleton _ w, ?_⟩
    · refine h.sorted.imp_of_mem fun {u v} hu hv huv => ?_
      rwa [hOld u hu, hOld v hv]
    · intro v hv x hx
      rw [List.mem_singleton.mp hx, hOld v hv, hNew]
      exact hAhead v hv
  case least =>
    intro v hv c hLeads
    rcases List.mem_append.mp hv with hv | hv
    · rw [hOld v hv]
      exact h.least v hv c hLeads
    · rw [List.mem_singleton.mp hv] at hLeads ⊢
      rw [hNew]
      exact hLeast c hLeads

theorem Fringe.Expanding.looked_rest {node w : Nat} {ws order : List Nat}
    (h : f.Expanding next size start chain done node (w :: ws))
    (hOrder : ∀ v ∈ done ++ node :: f.waiting, v ∈ order) (hw : w ∈ order) :
    ∀ x ∈ next node, x ∈ ws ∨ x ∈ order := by
  intro x hx
  rcases h.looked x hx with hx | hx
  · rcases List.mem_cons.mp hx with rfl | hx
    · exact .inr hw
    · exact .inl hx
  · exact .inr (hOrder x hx)

theorem Fringe.Expanding.pass {node w : Nat} {ws : List Nat}
    (h : f.Expanding next size start chain done node (w :: ws)) (hw : w ∈ done ++ node :: f.waiting) :
    f.Expanding next size start chain done node ws where
  charted := h.charted
  closed := h.closed
  origin := h.origin
  looked := h.looked_rest (fun _ hv => hv) hw
  ahead v hv x hx := h.ahead v hv x (List.mem_cons_of_mem _ hx)

theorem Fringe.Expanding.least_fresh {node w : Nat} {ws : List Nat}
    (h : f.Expanding next size start chain done node ws) (hFresh : w ∉ done ++ node :: f.waiting)
    {c : List Nat} (hLeads : Leads (fun v w => w ∈ next v) c start w) :
    Precedes (chain node ++ [w]) c := by
  rcases hLeads.cases_snoc with ⟨_, rfl⟩ | ⟨u, c', rfl, hLeads', huw⟩
  · exact absurd h.charted.start_mem hFresh
  · -- the node before `w` was not expanded, or `w` would have been met from it
    have hu : u ∉ done := fun hu => hFresh (h.closed u hu w huw)
    exact (h.precedes hLeads' hu).snoc w

theorem Fringe.Expanding.add {node w : Nat} {ws : List Nat}
    (h : f.Expanding next size start chain done node (w :: ws)) (hw : w ∈ next node) (hSize : w < size)
    (hLt : ∀ x ∈ ws, w < x) (hFresh : w ∉ done ++ node :: f.waiting) :
    Fringe.Expanding next size start (Function.update chain w (chain node ++ [w])) done node ws
      ⟨f.waiting ++ [w], f.seen.setIfInBounds w true, (w, node) :: f.links⟩ := by
  have hNode : node ∈ done ++ node :: f.waiting := by simp
  have hne : ∀ v ∈ done ++ node :: f.waiting, v ≠ w := fun v hv => ne_of_mem_of_not_mem hv hFresh
  have hOrder : done ++ node :: (f.waiting ++ [w]) = (done ++ node :: f.waiting) ++ [w] := by simp
  constructor
  case charted =>
    rw [hOrder]
    exact h.charted.add hNode hw hSize hFresh (fun v hv => h.ahead v hv w List.mem_cons_self)
      (fun c hLeads => h.least_fresh hFresh hLeads) _
  case closed =>
    rw [hOrder]
    exact fun u hu x hx => List.mem_append_left _ (h.closed u hu x hx)
  case origin =>
    rw [hOrder]
    intro v hv u hu
    rcases List.mem_append.mp hv with hv | hv
    · rw [before?_cons (hne v hv)] at hu
      exact h.origin v hv u hu
    · rw [List.mem_singleton.mp hv] at hu
      have hEq : node = u := by simpa [Links.before?] using hu
      exact .inr hEq.symm
  case looked =>
    rw [hOrder]
    exact h.looked_rest (fun _ hv => List.mem_append_left _ hv) (by simp)
  case ahead =>
    rw [hOrder]
    intro v hv x hx
    rw [Function.update_of_ne (hne node hNode)]
    rcases List.mem_append.mp hv with hv | hv
    · rw [Function.update_of_ne (hne v hv)]
      exact h.ahead v hv x (List.mem_cons_of_mem _ hx)
    · rw [List.mem_singleton.mp hv, Function.update_self]
      exact before_snoc_of_lt _ (hLt x hx)

theorem Fringe.Expanding.meet {node w : Nat} {ws : List Nat}
    (h : f.Expanding next size start chain done node (w :: ws)) (hw : w ∈ next node) (hSize : w < size)
    (hLt : ∀ x ∈ ws, w < x) :
    ∃ chain', (f.meet node w).Expanding next size start chain' done node ws := by
  rw [Fringe.meet]
  split
  · rename_i hSeen
    exact ⟨chain, h.pass ((h.charted.seen_iff w hSize).mp hSeen)⟩
  · rename_i hSeen
    exact ⟨_, h.add hw hSize hLt fun hMem => hSeen ((h.charted.seen_iff w hSize).mpr hMem)⟩

theorem Fringe.Expanding.foldl_meet {node : Nat} (ws : List Nat)
    (h : f.Expanding next size start chain done node ws) (hws : ∀ w ∈ ws, w ∈ next node ∧ w < size)
    (hSorted : ws.Pairwise (· < ·)) :
    ∃ chain', (ws.foldl (Fringe.meet node) f).Expanding next size start chain' done node [] := by
  induction ws generalizing f chain with
  | nil => exact ⟨chain, h⟩
  | cons w ws ih =>
    rw [List.pairwise_cons] at hSorted
    obtain ⟨hw, hSize⟩ := hws w List.mem_cons_self
    obtain ⟨chain', h'⟩ := h.meet hw hSize hSorted.1
    exact ih h' (fun x hx => hws x (List.mem_cons_of_mem _ hx)) hSorted.2

theorem Fringe.Explored.expand (hNext : ∀ v, ∀ w ∈ next v, w < size)
    (hSorted : ∀ v, (next v).Pairwise (· < ·)) (h : f.Explored next size start chain done) {node : Nat}
    {rest : List Nat} (hWaiting : f.waiting = node :: rest) :
    ∃ chain', (f.expand next node rest).Explored next size start chain' (done ++ [node]) := by
  obtain ⟨chain', h'⟩ := (h.expanding hWaiting).foldl_meet (next node)
    (fun w hw => ⟨hw, hNext node w hw⟩) (hSorted node)
  exact ⟨chain', h'.explored⟩

theorem Fringe.explored_begin (next : Nat → List Nat) (hStart : start < size) :
    (Fringe.begin size start).Explored next size start (fun v => [v]) [] := by
  constructor
  case charted =>
    constructor
    case size_eq => simp [Fringe.begin]
    case inside => simpa [Fringe.begin] using hStart
    case seen_iff =>
      intro v hv
      rw [Fringe.begin, isSeen_set (f := ⟨[start], Array.replicate size false, []⟩) (by simpa using hStart)]
      simp [isSeen, hv]
    case start_mem => simp [Fringe.begin]
    case chain_start => rfl
    case before_start => rfl
    case linked => simp [Fringe.begin]
    case sorted => simp [Fringe.begin]
    case least =>
      intro v hv c hLeads
      obtain rfl : v = start := by simpa [Fringe.begin] using hv
      exact hLeads.precedes_singleton
  case closed => simp
  case origin => simp [Fringe.begin, Links.before?]

theorem Fringe.Explored.search_spec (hNext : ∀ v, ∀ w ∈ next v, w < size)
    (hSorted : ∀ v, (next v).Pairwise (· < ·)) (goal : Nat)
    (h : f.Explored next size start chain done) (hGoal : goal ∉ done) :
    (f.search next goal = none → ¬ ReflTransGen (fun v w => w ∈ next v) start goal) ∧
      ∀ links, f.search next goal = some links → ∃ f' chain order,
        Fringe.Charted next size start chain order f' ∧ f'.links = links ∧ goal ∈ order := by
  fun_induction Fringe.search next goal f generalizing chain done with
  | case1 f hWaiting =>
    refine ⟨fun _ hReach => hGoal ?_, fun links hSome => by cases hSome⟩
    obtain ⟨hCharted, hClosed, _⟩ := h
    rw [hWaiting, List.append_nil] at hCharted hClosed
    clear hGoal
    -- nothing waits, so the expanded nodes are closed under `next`
    induction hReach with
    | refl => exact hCharted.start_mem
    | tail _ hvw ih => exact hClosed _ ih _ hvw
  | case2 f rest hWaiting =>
    constructor
    · intro hNone
      cases hNone
    · intro links hSome
      cases hSome
      exact ⟨f, chain, _, h.charted, rfl, by simp [hWaiting]⟩
  | case3 f node rest hWaiting hne ih =>
    obtain ⟨chain', h'⟩ := h.expand hNext hSorted hWaiting
    refine ih h' fun hMem => ?_
    rcases List.mem_append.mp hMem with hMem | hMem
    · exact hGoal hMem
    · exact hne (List.mem_singleton.mp hMem).symm

end ModuleAtlas.Search
