import ModuleAtlas.Proofs.Syntax.Surface

/-!
# Which nodes a walk visits

A place in a tree is the way down to a node, by the number of the child at each level. A walk visits
the nodes at the places above which it was never told to leave out what is below, each once, and in
the lexical order of the places: parents before children, children in order.
-/

namespace ModuleAtlas

set_option autoImplicit false

namespace Node

def nodeAt? : Node → List Nat → Option Node
  | n, [] => some n
  | n, i :: place => n.children[i]?.bind fun c => c.nodeAt? place

end Node

/-- The place of a cursor in the tree that it started from. -/
def Cursor.place (c : Cursor) : List Nat :=
  (c.above.map fun level => level.parent.children.length - (level.later.length + 1)).reverse

namespace Node

structure Visit where
  place : List Nat
  node : Node
  answer : Step

/-- The same visit, seen from further up. -/
def Visit.under (way : List Nat) (v : Visit) : Visit := { v with place := way ++ v.place }

section Within

/-- The cursor came down to its node from the given one. -/
inductive Within (n : Node) : Cursor → Prop
  | start : Within n (.ofNode n)
  | child {parent c : Node} {above : List Cursor.Level} {before later : List Node}
    (h : Within n ⟨parent, above⟩) (hChildren : parent.children = before ++ c :: later) :
    Within n ⟨c, ⟨parent, later⟩ :: above⟩

variable {n : Node} {c : Cursor}

theorem Within.firstChild? {child : Cursor} (h : Within n c) (hChild : c.firstChild? = some child) :
    Within n child := by
  obtain ⟨first, later, hChildren, rfl⟩ := Cursor.firstChild?_eq_some hChild
  exact .child h (show c.node.children = [] ++ first :: later from hChildren)

theorem Within.next? {sibling : Cursor} (h : Within n c) (hNext : c.next? = some sibling) :
    Within n sibling := by
  cases h with
  | start => cases hNext
  | @child parent c above before later h hChildren =>
    cases later with
    | nil => cases hNext
    | cons next later =>
      cases hNext
      exact .child h (show parent.children = (before ++ [c]) ++ next :: later by simp [hChildren])

theorem Within.up? {parent : Cursor} (h : Within n c) (hUp : c.up? = some parent) : Within n parent := by
  cases h with
  | start => cases hUp
  | child h _ =>
    cases hUp
    exact h

/-- No move leads out of the tree below the start. -/
theorem Within.after? {enter unseen : Bool} {next : Cursor} (h : Within n c)
    (hMove : c.after? enter = some (unseen, next)) : Within n next := by
  obtain ⟨-, -, hChild⟩ | ⟨-, hNext⟩ | ⟨-, hUp⟩ := Cursor.after?_cases hMove
  · exact h.firstChild? hChild
  · exact h.next? hNext
  · exact h.up? hUp

theorem place_cons {parent c : Node} {before later : List Node} (above : List Cursor.Level)
    (h : parent.children = before ++ c :: later) :
    Cursor.place ⟨c, ⟨parent, later⟩ :: above⟩ = Cursor.place ⟨parent, above⟩ ++ [before.length] := by
  simp [Cursor.place, h]

theorem nodeAt?_append (n : Node) (p q : List Nat) :
    n.nodeAt? (p ++ q) = (n.nodeAt? p).bind fun m => m.nodeAt? q := by
  induction p generalizing n with
  | nil => rfl
  | cons i p ih => simp [nodeAt?, ih, Option.bind_assoc]

theorem Within.nodeAt?_place (h : Within n c) : n.nodeAt? c.place = some c.node := by
  induction h with
  | start => rfl
  | child h hChildren ih =>
    rw [place_cons _ hChildren, nodeAt?_append, ih]
    simp [nodeAt?, hChildren]

/-- The node one level above a place. -/
def parentAt? (n : Node) (place : List Nat) : Option Node :=
  if place = [] then none else n.nodeAt? place.dropLast

theorem Within.parentAt?_place (h : Within n c) : n.parentAt? c.place = c.parent? := by
  cases h with
  | start => rfl
  | child h hChildren =>
    rw [parentAt?, place_cons _ hChildren, if_neg (by simp), List.dropLast_concat, h.nodeAt?_place]
    rfl

variable {σ τ : Type}

/-- Two walks whose visitors agree under a view of the state go the same way, and agree at the end. -/
theorem walkFrom_view {visit : Cursor → σ → σ × Step} {visit' : Cursor → τ → τ × Step} {view : σ → τ}
    (hVisit : ∀ c state, Within n c → visit' c (view state) = (view (visit c state).1, (visit c state).2))
    (fresh : Bool) (c : Cursor) (state : σ) (hc : Within n c) :
    walkFrom visit' fresh c (view state) = view (walkFrom visit fresh c state) := by
  have hVisited : ∀ (fresh : Bool) (c : Cursor) (state : σ), Within n c →
      (if fresh then visit' c (view state) else (view state, .skip)) =
        (view (if fresh then visit c state else (state, .skip)).1,
          (if fresh then visit c state else (state, .skip)).2) := by
    intro fresh c state hc
    cases fresh with
    | false => rfl
    | true => exact hVisit c state hc
  fun_induction walkFrom visit fresh c state with
  | case1 fresh c state visited hNone =>
    rw [walkFrom_eq]
    simp only [hVisited fresh c state hc]
    exact congrArg (Option.elim · _ _) hNone
  | case2 fresh c state visited unseen next hSome ih =>
    rw [walkFrom_eq, ← ih (hc.after? hSome)]
    simp only [hVisited fresh c state hc]
    exact congrArg (Option.elim · _ _) hSome

end Within

section Rounds

variable {σ : Type}

/-- One round of the loop: what the visit leaves, and where the cursor goes. -/
def round (visit : Cursor → σ → σ × Step) (fresh : Bool) (c : Cursor) (state : σ) :
    σ × Option (Bool × Cursor) :=
  let visited := if fresh then visit c state else (state, .skip)
  (visited.1, c.after? (visited.2 == .descend))

/-- The loop comes to its end after a number of rounds. -/
inductive Rounds (visit : Cursor → σ → σ × Step) : Nat → Bool → Cursor → σ → σ → Prop
  | last {fresh : Bool} {c : Cursor} {state final : σ} (h : round visit fresh c state = (final, none)) :
    Rounds visit 1 fresh c state final
  | next {k : Nat} {fresh unseen : Bool} {c next : Cursor} {state after final : σ}
    (h : round visit fresh c state = (after, some (unseen, next)))
    (hRest : Rounds visit k unseen next after final) : Rounds visit (k + 1) fresh c state final

theorem weight_pos (fresh : Bool) (c : Cursor) : 0 < c.weight fresh := by
  have hSize := c.node.size_eq
  cases fresh <;> simp only [Cursor.weight, Bool.false_eq_true, if_false, if_true] <;> omega

theorem rounds_walkFrom (visit : Cursor → σ → σ × Step) (fresh : Bool) (c : Cursor) (state : σ) :
    ∃ k ≤ c.weight fresh, Rounds visit k fresh c state (walkFrom visit fresh c state) := by
  fun_induction walkFrom visit fresh c state with
  | case1 fresh c state visited hNone =>
    exact ⟨1, weight_pos fresh c, .last (congrArg (Prod.mk visited.1) hNone)⟩
  | case2 fresh c state visited unseen next hSome ih =>
    obtain ⟨k, hk, hRest⟩ := ih
    have hLess : next.weight unseen < c.weight fresh := Cursor.weight_after? (fresh_of_descend visit) hSome
    exact ⟨k + 1, by omega, .next (congrArg (Prod.mk visited.1) hSome) hRest⟩

end Rounds

section Places

variable {n m : Node}

theorem mem_nodes_of_nodeAt? {place : List Nat} (h : n.nodeAt? place = some m) : m ∈ n.nodes := by
  induction place generalizing n with
  | nil =>
    cases h
    exact self_mem_nodes _
  | cons i place ih =>
    obtain ⟨c, hc, hm⟩ := Option.bind_eq_some_iff.mp h
    exact mem_nodes_of_child (List.mem_of_getElem? hc) (ih hm)

mutual

theorem exists_nodeAt? (n : Node) (hm : m ∈ n.nodes) : ∃ place, n.nodeAt? place = some m := by
  cases n with
  | leaf k r s t => exact ⟨[], by rw [nodeAt?, List.mem_singleton.mp hm]⟩
  | branch k r s e cs =>
    rcases List.mem_cons.mp hm with rfl | hm
    · exact ⟨[], rfl⟩
    · obtain ⟨i, c, place, hc, hPlace⟩ := exists_nodeAt?_child cs hm
      exact ⟨i :: place, Option.bind_eq_some_iff.mpr ⟨c, hc, hPlace⟩⟩

theorem exists_nodeAt?_child (cs : List Node) (hm : m ∈ nodesAll cs) :
    ∃ (i : Nat) (c : Node) (place : List Nat), cs[i]? = some c ∧ c.nodeAt? place = some m := by
  cases cs with
  | nil => cases hm
  | cons c rest =>
    rcases List.mem_append.mp hm with hm | hm
    · obtain ⟨place, hPlace⟩ := exists_nodeAt? c hm
      exact ⟨0, c, place, rfl, hPlace⟩
    · obtain ⟨i, d, place, hd, hPlace⟩ := exists_nodeAt?_child rest hm
      exact ⟨i + 1, d, place, hd, hPlace⟩

end

theorem mem_nodes_iff : m ∈ n.nodes ↔ ∃ place, n.nodeAt? place = some m := by
  constructor
  · exact exists_nodeAt? n
  · rintro ⟨place, h⟩
    exact mem_nodes_of_nodeAt? h

/-- In a well-formed tree what comes later in the order of places starts no earlier. -/
theorem WellFormed.start_le_of_lex {k : Node} (h : n.WellFormed) {p q : List Nat} (hLex : List.Lex (· < ·) p q)
    (hm : n.nodeAt? p = some m) (hk : n.nodeAt? q = some k) : m.start ≤ k.start := by
  induction hLex generalizing n with
  | nil =>
    cases hm
    exact (h.inside (mem_nodes_of_nodeAt? hk)).start_le
  | cons _ ih =>
    obtain ⟨c, hc, hm⟩ := Option.bind_eq_some_iff.mp hm
    obtain ⟨d, hd, hk⟩ := Option.bind_eq_some_iff.mp hk
    cases hc.symm.trans hd
    exact ih ((wellFormed_iff.mp h).2 c (List.mem_of_getElem? hc)) hm hk
  | rel hlt =>
    obtain ⟨c, hc, hm⟩ := Option.bind_eq_some_iff.mp hm
    obtain ⟨d, hd, hk⟩ := Option.bind_eq_some_iff.mp hk
    have hChildren := (wellFormed_iff.mp h).2
    obtain ⟨hi, rfl⟩ := List.getElem?_eq_some_iff.mp hc
    obtain ⟨hj, rfl⟩ := List.getElem?_eq_some_iff.mp hd
    have hm := (hChildren _ (List.getElem_mem hi)).inside (mem_nodes_of_nodeAt? hm)
    have hk := (hChildren _ (List.getElem_mem hj)).inside (mem_nodes_of_nodeAt? hk)
    have hApart := List.pairwise_iff_getElem.mp h.pairwise_children _ _ hi hj hlt
    have hmProper := hm.proper
    have hmStop := hm.stop_le
    have hkStart := hk.start_le
    omega

end Places

section Tours

variable {σ : Type}

/-- The answers of a visitor from a state on, and the state they lead to. -/
def Answered (visit : Node → σ → σ × Step) : σ → List Visit → σ → Prop
  | state, [], final => final = state
  | state, v :: rest, final =>
    (visit v.node state).2 = v.answer ∧ Answered visit (visit v.node state).1 rest final

/-- A place was visited exactly if no visit above it was answered by leaving out what is below. -/
def Reached (log : List Visit) (place : List Nat) : Prop :=
  (∃ v ∈ log, v.place = place) ↔
    ∀ v ∈ log, v.place <+: place → v.place ≠ place → v.answer = .descend

structure Toured (visit : Node → σ → σ × Step) (reach : List Nat → Option Node) (state : σ)
    (log : List Visit) (final : σ) : Prop where
  answered : Answered visit state log final
  inside : ∀ v ∈ log, reach v.place = some v.node
  ordered : log.Pairwise fun v w => List.Lex (· < ·) v.place w.place
  reached : ∀ place m, reach place = some m → Reached log place

/-- The nodes at places below the given siblings, where the first of them has the given number. -/
def reachFrom (i : Nat) (cs : List Node) : List Nat → Option Node
  | [] => none
  | j :: place => if j < i then none else cs[j - i]?.bind fun c => c.nodeAt? place

variable {visit : Node → σ → σ × Step} {n c : Node} {state mid final : σ} {vs ws : List Visit} {i : Nat}
  {cs rest : List Node}

theorem Answered.append (hv : Answered visit state vs mid) (hw : Answered visit mid ws final) :
    Answered visit state (vs ++ ws) final := by
  induction vs generalizing state with
  | nil => rwa [show mid = state from hv] at hw
  | cons v vs ih => exact ⟨hv.1, ih hv.2⟩

theorem Answered.under (way : List Nat) (h : Answered visit state vs final) :
    Answered visit state (vs.map (Visit.under way)) final := by
  induction vs generalizing state with
  | nil => exact h
  | cons v vs ih => exact ⟨h.1, ih h.2⟩

theorem Answered.answer_of_mem {v : Visit} (h : Answered visit state vs final) (hv : v ∈ vs) :
    ∃ before, (visit v.node before).2 = v.answer := by
  induction vs generalizing state with
  | nil => cases hv
  | cons u vs ih =>
    rcases List.mem_cons.mp hv with rfl | hv
    · exact ⟨state, h.1⟩
    · exact ih h.2 hv

theorem reachFrom_children (n : Node) (j : Nat) (place : List Nat) :
    reachFrom 0 n.children (j :: place) = n.nodeAt? (j :: place) := by
  simp [reachFrom, nodeAt?]

theorem reachFrom_self (i : Nat) (c : Node) (rest : List Node) (place : List Nat) :
    reachFrom i (c :: rest) (i :: place) = c.nodeAt? place := by
  simp [reachFrom]

theorem reachFrom_later {j : Nat} (h : i < j) (place : List Nat) :
    reachFrom i (c :: rest) (j :: place) = reachFrom (i + 1) rest (j :: place) := by
  obtain ⟨d, rfl⟩ := Nat.exists_eq_add_of_lt h
  rw [reachFrom, reachFrom, if_neg (by omega), if_neg (by omega), show i + d + 1 - i = d + 1 by omega,
    show i + d + 1 - (i + 1) = d by omega, List.getElem?_cons_succ]

theorem head_of_reachFrom {m : Node} {place : List Nat} (h : reachFrom i cs place = some m) :
    ∃ j tail, i ≤ j ∧ place = j :: tail := by
  cases place with
  | nil => cases h
  | cons j tail =>
    rw [reachFrom] at h
    split at h
    · cases h
    · exact ⟨j, tail, by omega, rfl⟩

theorem reached_congr {place : List Nat} (h : ∀ v, v.place <+: place → (v ∈ vs ↔ v ∈ ws)) :
    Reached vs place ↔ Reached ws place := by
  have hSome : (∃ v ∈ vs, v.place = place) ↔ ∃ v ∈ ws, v.place = place :=
    exists_congr fun v => and_congr_left fun hPlace => h v (hPlace ▸ List.prefix_rfl)
  have hAll : (∀ v ∈ vs, v.place <+: place → v.place ≠ place → v.answer = .descend) ↔
      ∀ v ∈ ws, v.place <+: place → v.place ≠ place → v.answer = .descend := by
    constructor
    · intro hv w hw hPrefix
      exact hv w ((h w hPrefix).mpr hw) hPrefix
    · intro hw v hv hPrefix
      exact hw v ((h v hPrefix).mp hv) hPrefix
  rw [Reached, Reached, hSome, hAll]

theorem reached_under (way place : List Nat) :
    Reached (vs.map (Visit.under way)) (way ++ place) ↔ Reached vs place := by
  simp [Reached, Visit.under, List.prefix_append_right_inj]

theorem Toured.nil (visit : Node → σ → σ × Step) (i : Nat) (state : σ) :
    Toured visit (reachFrom i []) state [] state where
  answered := rfl
  inside := by simp
  ordered := .nil
  reached := by
    intro place m hm
    obtain ⟨j, tail, -, rfl⟩ := head_of_reachFrom hm
    simp [reachFrom] at hm

theorem Toured.skip {after : σ} (h : visit n state = (after, .skip)) :
    Toured visit n.nodeAt? state [⟨[], n, .skip⟩] after where
  answered := by simp [Answered, h]
  inside := by simp [nodeAt?]
  ordered := List.pairwise_singleton _ _
  reached := by
    intro place m _
    cases place <;> simp [Reached]

/-- A visit that is not answered by leaving out goes before those of the children. -/
theorem Toured.enter {after : σ} (h : visit n state = (after, .descend))
    (hChildren : Toured visit (reachFrom 0 n.children) after vs final) :
    Toured visit n.nodeAt? state (⟨[], n, .descend⟩ :: vs) final where
  answered := by
    rw [Answered, h]
    exact ⟨rfl, hChildren.answered⟩
  inside := by
    refine List.forall_mem_cons.mpr ⟨rfl, fun v hv => ?_⟩
    have hv := hChildren.inside v hv
    obtain ⟨j, tail, -, hPlace⟩ := head_of_reachFrom hv
    rwa [hPlace, reachFrom_children, ← hPlace] at hv
  ordered := by
    refine List.pairwise_cons.mpr ⟨fun v hv => ?_, hChildren.ordered⟩
    obtain ⟨j, tail, -, hPlace⟩ := head_of_reachFrom (hChildren.inside v hv)
    rw [hPlace]
    exact .nil
  reached := by
    intro place m hm
    cases place with
    | nil =>
      refine iff_of_true ⟨_, List.mem_cons_self, rfl⟩ fun v _ hPrefix hNe => ?_
      exact absurd (List.prefix_nil.mp hPrefix) hNe
    | cons j tail =>
      have hReached := hChildren.reached (j :: tail) m (by rwa [reachFrom_children])
      simpa [Reached] using hReached

/-- The visits of the first of some siblings go before those of the others. -/
theorem Toured.cons (hFirst : Toured visit c.nodeAt? state vs mid)
    (hRest : Toured visit (reachFrom (i + 1) rest) mid ws final) :
    Toured visit (reachFrom i (c :: rest)) state (vs.map (Visit.under [i]) ++ ws) final where
  answered := (hFirst.answered.under [i]).append hRest.answered
  inside := by
    refine List.forall_mem_append.mpr ⟨List.forall_mem_map.mpr fun v hv => ?_, fun w hw => ?_⟩
    · exact (reachFrom_self i c rest v.place).trans (hFirst.inside v hv)
    · have hw := hRest.inside w hw
      obtain ⟨j, tail, hj, hPlace⟩ := head_of_reachFrom hw
      rw [hPlace] at hw ⊢
      rw [reachFrom_later hj, hw]
  ordered := by
    refine List.pairwise_append.mpr ⟨List.pairwise_map.mpr (hFirst.ordered.imp .cons), hRest.ordered, ?_⟩
    intro v hv w hw
    obtain ⟨u, -, rfl⟩ := List.mem_map.mp hv
    obtain ⟨j, tail, hj, hPlace⟩ := head_of_reachFrom (hRest.inside w hw)
    rw [hPlace]
    exact .rel hj
  reached := by
    intro place m hm
    obtain ⟨j, tail, hj, rfl⟩ := head_of_reachFrom hm
    rcases Nat.eq_or_lt_of_le hj with rfl | hj
    · -- no later sibling is on the way to a place below the first
      rw [reachFrom_self] at hm
      refine (reached_congr fun v hPrefix => ?_).mpr ((reached_under [i] tail).mpr (hFirst.reached tail m hm))
      refine List.mem_append.trans (or_iff_left fun hv => ?_)
      obtain ⟨k, rest, hk, hPlace⟩ := head_of_reachFrom (hRest.inside v hv)
      rw [hPlace, List.cons_prefix_cons] at hPrefix
      omega
    · -- and the first is not on the way to a place below a later one
      rw [reachFrom_later hj] at hm
      refine (reached_congr fun v hPrefix => ?_).mpr (hRest.reached (j :: tail) m hm)
      refine List.mem_append.trans (or_iff_right fun hv => ?_)
      obtain ⟨u, -, rfl⟩ := List.mem_map.mp hv
      have hHead := (List.cons_prefix_cons.mp hPrefix).1
      omega

end Tours

section Recording

variable {σ : Type} (visit : Node → σ → σ × Step)

/-- The same visitor, which also writes down its visits. -/
def recording (c : Cursor) (state : σ × List Visit) : (σ × List Visit) × Step :=
  let answer := visit c.node state.1
  ((answer.1, state.2 ++ [⟨c.place, c.node, answer.2⟩]), answer.2)

def visits (n : Node) (state : σ) : List Visit :=
  (walkFrom (recording visit) true (.ofNode n) (state, [])).2

/-- A run writes down a tour of what is within reach, from the given way down. -/
def Tours (way : List Nat) (reach : List Nat → Option Node) (run : σ × List Visit → σ × List Visit) : Prop :=
  ∀ state log, ∃ vs final, run (state, log) = (final, log ++ vs.map (Visit.under way)) ∧
    Toured visit reach state vs final

theorem tours_of_children {above : List Cursor.Level} {n : Node}
    (hChildren : Tours visit (Cursor.place ⟨n, above⟩) (reachFrom 0 n.children)
      (visitAll (recording visit) n above n.children)) :
    Tours visit (Cursor.place ⟨n, above⟩) n.nodeAt? (visitBelow (recording visit) above n) := by
  intro state log
  cases hAnswer : visit n state with
  | mk after step =>
    cases step with
    | skip =>
      refine ⟨[⟨[], n, .skip⟩], after, ?_, .skip hAnswer⟩
      cases n <;> simp [visitBelow, recording, hAnswer, Visit.under]
    | descend =>
      obtain ⟨vs, final, hRun, hToured⟩ :=
        hChildren after (log ++ [⟨Cursor.place ⟨n, above⟩, n, .descend⟩])
      refine ⟨⟨[], n, .descend⟩ :: vs, final, ?_, .enter hAnswer hToured⟩
      cases n with
      | leaf k r s t =>
        simpa [visitBelow, visitAll, children, recording, hAnswer, Visit.under] using hRun
      | branch k r s e cs =>
        simpa [visitBelow, children, recording, hAnswer, Visit.under] using hRun

theorem tours_nil (parent : Node) (above : List Cursor.Level) (way : List Nat) (i : Nat) :
    Tours visit way (reachFrom i []) (visitAll (recording visit) parent above []) := by
  intro state log
  exact ⟨[], state, by simp [visitAll], .nil visit i state⟩

mutual

theorem tours_visitBelow (above : List Cursor.Level) (n : Node) :
    Tours visit (Cursor.place ⟨n, above⟩) n.nodeAt? (visitBelow (recording visit) above n) := by
  cases n with
  | leaf k r s t => exact tours_of_children visit (tours_nil visit _ above _ 0)
  | branch k r s e cs => exact tours_of_children visit (tours_visitAll _ above [] cs rfl)

theorem tours_visitAll (parent : Node) (above : List Cursor.Level) (before cs : List Node)
    (h : parent.children = before ++ cs) :
    Tours visit (Cursor.place ⟨parent, above⟩) (reachFrom before.length cs)
      (visitAll (recording visit) parent above cs) := by
  cases cs with
  | nil => exact tours_nil visit parent above _ _
  | cons c rest =>
    intro state log
    obtain ⟨vs, mid, hFirst, hFirstToured⟩ := tours_visitBelow (⟨parent, rest⟩ :: above) c state log
    obtain ⟨ws, final, hRest, hRestToured⟩ :=
      tours_visitAll parent above (before ++ [c]) rest (by simp [h]) mid (log ++ vs.map _)
    rw [List.length_append, List.length_singleton] at hRestToured
    refine ⟨vs.map (Visit.under [before.length]) ++ ws, final, ?_, hFirstToured.cons hRestToured⟩
    rw [visitAll, hFirst, hRest, place_cons above h]
    simp [Visit.under, Function.comp_def]

end

theorem toured_visits (n : Node) (state : σ) :
    Toured visit n.nodeAt? state (visits visit n state) (n.walk visit state) := by
  obtain ⟨vs, final, hRun, hToured⟩ := tours_visitBelow visit [] n state []
  have hUnder : Visit.under [] = id := rfl
  have hWalk : n.walk visit state = (walkFrom (recording visit) true (.ofNode n) (state, [])).1 :=
    @walkFrom_view n _ _ (recording visit) _ Prod.fst (fun _ _ _ => rfl) true _ (state, []) .start
  rw [walkFrom_ofNode, hRun] at hWalk
  have hVisits : visits visit n state = vs := by
    rw [visits, walkFrom_ofNode, hRun]
    simp [Cursor.place, hUnder]
  rwa [hWalk, hVisits]

end Recording

section Sparing

def sparing (p : Node → Bool) (m : Node) (state : Unit) : Unit × Step :=
  (state, if p m then .skip else .descend)

/-- No node of the class stands above the place. -/
def Clear (p : Node → Bool) (n : Node) (place : List Nat) : Prop :=
  ∀ q k, n.nodeAt? q = some k → q <+: place → q ≠ place → p k = false

theorem visited_sparing_iff {p : Node → Bool} {n m : Node} {place : List Nat} (hm : n.nodeAt? place = some m) :
    (∃ v ∈ visits (sparing p) n (), v.place = place) ↔ n.Clear p place := by
  have hToured := toured_visits (sparing p) n ()
  have hAnswer : ∀ v ∈ visits (sparing p) n (), v.answer = .descend ↔ p v.node = false := by
    intro v hv
    obtain ⟨before, hAnswer⟩ := hToured.answered.answer_of_mem hv
    rw [← hAnswer, sparing]
    cases p v.node <;> simp
  constructor
  · intro hVisited q k hk hPrefix hNe
    have hOpen := (hToured.reached place m hm).mp hVisited
    -- a place above a visited one was visited: nothing further up was left out
    obtain ⟨v, hv, rfl⟩ := (hToured.reached q k hk).mpr fun v hv hAbove _ =>
      hOpen v hv (hAbove.trans hPrefix) fun hEq => hNe (hPrefix.eq_of_length_le (hEq ▸ hAbove.length_le))
    cases (hToured.inside v hv).symm.trans hk
    exact (hAnswer v hv).mp (hOpen v hv hPrefix hNe)
  · intro hClear
    refine (hToured.reached place m hm).mpr fun v hv hPrefix hNe => ?_
    exact (hAnswer v hv).mpr (hClear v.place v.node (hToured.inside v hv) hPrefix hNe)

end Sparing

end Node

end ModuleAtlas
