import ModuleAtlas.Graph.Depth
import ModuleAtlas.Proofs.Graph.Built
import ModuleAtlas.Proofs.Graph.Walk

/-!
# Depths of import chains

The depth of a node is the length of the longest course from it, a chain of distinct nodes.
Below a trail the search counts only the courses that keep off the trail. If nothing was cut,
no walk from the node goes on for ever; then the trail is out of its reach, since the trail
leads to it, and the depth does not depend on the trail. Only such depths are remembered.

The loop over a stack of frames does what a recursion, `sound`, does: from entering a node to leaving
it, the frames below stay as they are.
-/

namespace ModuleAtlas

open Relation Walk

set_option autoImplicit false

namespace Search

variable {next : Nat → List Nat} {size : Nat}

/-- The longest chain found so far below a node, whether a node of the trail was met, and known depths. -/
structure Sounding where
  best : Nat
  cut : Bool
  known : Depths

/-- Take in a node that comes next: one that we are inside of cuts, a known one counts with its
depth, and any other is sounded by `below`. -/
def Sounding.take (inside : List Nat) (below : Nat → Depths → Sounding) (s : Sounding) (w : Nat) :
    Sounding :=
  if inside.contains w then { s with cut := true }
  else
    match s.known.get? w with
    | some d => { s with best := max s.best d }
    | none =>
      let b := below w s.known
      ⟨max s.best b.best, s.cut || b.cut, b.known⟩

/-- Sound the depth of a node below the nodes of a trail; `best` of the outcome is that depth. -/
def sound (next : Nat → List Nat) : Nat → List Nat → Nat → Depths → Sounding
  | 0, _, _, known => ⟨0, true, known⟩
  | fuel + 1, trail, node, known =>
    let s := (next node).foldl (Sounding.take (node :: trail) (sound next fuel (node :: trail))) ⟨0, false, known⟩
    ⟨s.best + 1, s.cut, if s.cut then s.known else (node, s.best + 1) :: s.known⟩

namespace Dive

structure Marks (size : Nat) (trail : List Nat) (inside : Array Bool) : Prop where
  size_eq : inside.size = size
  marked : ∀ v < size, inside.getD v true = true ↔ v ∈ trail

theorem Marks.isInside_iff {trail : List Nat} {s : Dive} (h : Marks size trail s.inside) {v : Nat}
    (hv : v < size) : s.isInside v = trail.contains v := by
  rw [Bool.eq_iff_iff, List.contains_iff_mem]
  exact h.marked v hv

theorem Marks.enter {trail : List Nat} {inside : Array Bool} (h : Marks size trail inside) {v : Nat} :
    Marks size (v :: trail) (inside.setIfInBounds v true) where
  size_eq := by rw [Array.size_setIfInBounds, h.size_eq]
  marked w hw := by
    have hMarked := h.marked w hw
    have hSize := h.size_eq
    simp only [Array.getD_eq_getD_getElem?, Array.getElem?_setIfInBounds] at hMarked ⊢
    by_cases hEq : v = w
    · simp [hEq, hSize, hw]
    · simpa [hEq, Ne.symm hEq] using hMarked

theorem Marks.enter_leave {trail : List Nat} {inside : Array Bool} (h : Marks size trail inside) {v : Nat}
    (hv : v < size) (hFresh : v ∉ trail) :
    (inside.setIfInBounds v true).setIfInBounds v false = inside := by
  have hSize : v < inside.size := h.size_eq ▸ hv
  have hUnmarked : inside[v] = false := by
    have hMarked := mt (h.marked v hv).mp hFresh
    simpa [Array.getD, hSize] using hMarked
  rw [Array.setIfInBounds_setIfInBounds]
  apply Array.ext
  · simp
  · intro i _ hi
    rw [Array.getElem_setIfInBounds hi]
    split
    · subst i
      exact hUnmarked.symm
    · rfl

theorem marks_nil (size : Nat) : Marks size [] (Array.replicate size false) where
  size_eq := by simp
  marked v hv := by simp [Array.getD, hv]

theorem run_look (next : Nat → List Nat) {inside : Array Bool} {known : Depths} {node w best : Nat} {cut : Bool}
    {rest : List Nat} {outer : List Frame} :
    run next ⟨⟨node, w :: rest, best, cut⟩ :: outer, inside, known⟩ =
      run next (Dive.look next ⟨⟨node, w :: rest, best, cut⟩ :: outer, inside, known⟩
        ⟨node, rest, best, cut⟩ outer w) := by
  rw [run]

theorem run_leave (next : Nat → List Nat) {inside : Array Bool} {known : Depths} {node best : Nat} {cut : Bool}
    {parent : Frame} {outer : List Frame} :
    run next ⟨⟨node, [], best, cut⟩ :: parent :: outer, inside, known⟩ =
      run next ⟨parent.take (best + 1) cut :: outer, inside.setIfInBounds node false,
        if cut then known else (node, best + 1) :: known⟩ := by
  rw [run]
  rfl

theorem run_last (next : Nat → List Nat) {inside : Array Bool} {known : Depths} {node best : Nat} {cut : Bool} :
    run next ⟨[⟨node, [], best, cut⟩], inside, known⟩ =
      (best + 1, if cut then known else (node, best + 1) :: known) := by
  rw [run]
  rfl

/-- From entering a node to leaving it, the loop only takes in what is below the node. -/
theorem run_rest (hNext : ∀ v, ∀ w ∈ next v, w < size) (fuel : Nat) {trail : List Nat} {inside : Array Bool}
    (hMarks : Marks size trail inside) (hNodup : trail.Nodup) (hLt : ∀ t ∈ trail, t < size)
    (hFuel : size < fuel + trail.length) (node : Nat) (outer : List Frame) (ws : List Nat)
    (hws : ∀ w ∈ ws, w < size) (best : Nat) (cut : Bool) (known : Depths) :
    let s := ws.foldl (Sounding.take trail (sound next fuel trail)) ⟨best, cut, known⟩
    run next ⟨⟨node, ws, best, cut⟩ :: outer, inside, known⟩ =
      run next ⟨⟨node, [], s.best, s.cut⟩ :: outer, inside, s.known⟩ := by
  induction fuel generalizing trail inside node outer ws best cut known with
  | zero =>
    have hLength := length_le_of_nodup hNodup hLt
    omega
  | succ fuel ih =>
    induction ws generalizing best cut known with
    | nil => rfl
    | cons w ws ihWs =>
      have hw : w < size := hws w List.mem_cons_self
      have ihWs := ihWs fun u hu => hws u (List.mem_cons_of_mem _ hu)
      rw [run_look, look, Marks.isInside_iff hMarks hw, List.foldl_cons, Sounding.take]
      by_cases hMem : trail.contains w = true
      · rw [if_pos hMem, if_pos hMem]
        exact ihWs best true known
      · rw [if_neg hMem, if_neg hMem]
        cases hKnown : known.get? w with
        | some d => exact ihWs (max best d) cut known
        | none =>
          have hFresh : w ∉ trail := by simpa using hMem
          have hBelow := ih hMarks.enter (List.nodup_cons.mpr ⟨hFresh, hNodup⟩)
            (List.forall_mem_cons.mpr ⟨hw, hLt⟩) (by rw [List.length_cons]; omega) w
            (⟨node, ws, best, cut⟩ :: outer) (next w) (hNext w) 0 false known
          simp only [Dive.enter]
          rw [hBelow, run_leave, hMarks.enter_leave hw hFresh]
          exact ihWs _ _ _

/-- The loop computes the recursion. -/
theorem run_begin (hNext : ∀ v, ∀ w ∈ next v, w < size) {node : Nat} (hNode : node < size) (known : Depths) :
    (begin next size node known).run next =
      ((sound next (size + 1) [] node known).best, (sound next (size + 1) [] node known).known) := by
  have hMarks : Marks size [node] ((Array.replicate size false).setIfInBounds node true) := (marks_nil size).enter
  have hRest := run_rest hNext size hMarks (List.nodup_singleton node) (by simpa using hNode)
    (by simp) node [] (next node) (hNext node) 0 false known
  rw [begin, Dive.enter, hRest, run_last]
  rfl

end Dive

/-- A chain of distinct nodes that begins at a node and keeps off some others. -/
structure Course (next : Nat → List Nat) (off : List Nat) (v : Nat) (c : List Nat) : Prop where
  begins : c.head? = some v
  linked : c.IsChain (fun v w => w ∈ next v)
  nodup : c.Nodup
  apart : ∀ x ∈ c, x ∉ off

def LongestCourse (next : Nat → List Nat) (off : List Nat) (v d : Nat) : Prop :=
  IsGreatest {n | ∃ c, Course next off v c ∧ c.length = n} d

abbrev Ends (next : Nat → List Nat) (v : Nat) : Prop := Acc (fun w v => w ∈ next v) v

theorem Course.mem_begin {off : List Nat} {v : Nat} {c : List Nat} (h : Course next off v c) : v ∈ c :=
  List.mem_of_mem_head? h.begins

theorem Course.reaches {off : List Nat} {v x : Nat} {c : List Nat} (h : Course next off v c)
    (hx : x ∈ c) : ReflTransGen (fun v w => w ∈ next v) v x := by
  obtain ⟨before, after, rfl⟩ := List.append_of_mem hx
  have hPrefix : before ++ [x] <+: before ++ x :: after := ⟨after, by simp⟩
  have hLinked := List.IsChain.prefix h.linked hPrefix
  refine reflTransGen_of_chain hLinked ?_ (by simp)
  have hBegins := h.begins
  cases before <;> simpa using hBegins

theorem Course.cons {off : List Nat} {v w : Nat} {c : List Nat} (h : Course next (v :: off) w c)
    (hw : w ∈ next v) (hv : v ∉ off) : Course next off v (v :: c) where
  begins := rfl
  linked := h.linked.cons (by
    rw [h.begins]
    simpa using hw)
  nodup := List.nodup_cons.mpr ⟨fun hMem => h.apart v hMem List.mem_cons_self, h.nodup⟩
  apart x hx := by
    rcases List.mem_cons.mp hx with rfl | hx
    · exact hv
    · exact fun hOff => h.apart x hx (List.mem_cons_of_mem _ hOff)

theorem Course.cases_cons {off : List Nat} {v : Nat} {c : List Nat} (h : Course next off v c) :
    c = [v] ∨ ∃ w ∈ next v, ∃ c', c = v :: c' ∧ Course next (v :: off) w c' := by
  obtain ⟨hBegins, hLinked, hNodup, hApart⟩ := h
  match c with
  | [] => cases hBegins
  | [x] => exact .inl (by simpa using hBegins)
  | x :: w :: c =>
    obtain rfl : x = v := by simpa using hBegins
    rw [List.isChain_cons_cons] at hLinked
    rw [List.nodup_cons] at hNodup
    refine .inr ⟨w, hLinked.1, w :: c, rfl, ⟨rfl, hLinked.2, hNodup.2, fun y hy hOff => ?_⟩⟩
    rcases List.mem_cons.mp hOff with rfl | hOff
    · exact hNodup.1 hy
    · exact hApart y (List.mem_cons_of_mem _ hy) hOff

theorem Ends.course_apart {off : List Nat} {v : Nat} {c : List Nat} (hEnds : Ends next v)
    (hv : v ∉ off) (hOff : ∀ t ∈ off, ReflTransGen (fun v w => w ∈ next v) t v)
    (h : Course next [] v c) : Course next off v c := by
  refine ⟨h.begins, h.linked, h.nodup, fun x hx hMem => ?_⟩
  -- a node of the course that leads to `v` would be on a way from `v` back to itself
  have hvx := (reflTransGen_iff_eq_or_transGen.mp (h.reaches hx)).resolve_left (by
    rintro rfl
    exact hv hMem)
  exact not_transGen_of_acc (r := fun v w => w ∈ next v) hEnds (hvx.trans_left (hOff x hMem))

theorem Ends.longestCourse_iff {off : List Nat} {v d : Nat} (hEnds : Ends next v) (hv : v ∉ off)
    (hOff : ∀ t ∈ off, ReflTransGen (fun v w => w ∈ next v) t v) :
    LongestCourse next off v d ↔ LongestCourse next [] v d := by
  have hCourse : ∀ c, Course next off v c ↔ Course next [] v c := fun c =>
    ⟨fun h => ⟨h.begins, h.linked, h.nodup, fun _ _ => List.not_mem_nil⟩,
      hEnds.course_apart hv hOff⟩
  simp only [LongestCourse, hCourse]

/-- Only depths of nodes from which every walk ends are remembered, whatever the trail was. -/
def Depths.Valid (next : Nat → List Nat) (known : Depths) : Prop :=
  ∀ v d, known.get? v = some d → Ends next v ∧ LongestCourse next [] v d

theorem Depths.valid_nil (next : Nat → List Nat) : Depths.Valid next [] := by
  intro v d h
  cases h

theorem Depths.Valid.cons {known : Depths} (h : known.Valid next) {v d : Nat} (hEnds : Ends next v)
    (hd : LongestCourse next [] v d) : Depths.Valid next ((v, d) :: known) := by
  intro w e hw
  rw [Depths.get?, List.lookup_cons] at hw
  split at hw
  · rename_i hEq
    cases hw
    rw [eq_of_beq hEq]
    exact ⟨hEnds, hd⟩
  · exact h w e hw

/-- What is known after some of the nodes that come next were taken in. -/
structure Sounding.Tallies (next : Nat → List Nat) (inside taken : List Nat) (s : Sounding) : Prop where
  bound : ∀ w ∈ taken, ∀ c, Course next inside w c → c.length ≤ s.best
  attained : s.best = 0 ∨ ∃ w ∈ taken, ∃ c, Course next inside w c ∧ c.length = s.best
  ends : s.cut = false → ∀ w ∈ taken, Ends next w
  valid : s.known.Valid next

theorem Sounding.Tallies.add {inside taken : List Nat} {s : Sounding} (h : s.Tallies next inside taken)
    {w d : Nat} {cut : Bool} {known : Depths} (hd : LongestCourse next inside w d)
    (hCut : cut = false → s.cut = false ∧ Ends next w) (hKnown : known.Valid next) :
    Sounding.Tallies next inside (taken ++ [w]) ⟨max s.best d, cut, known⟩ where
  bound u hu c hc := by
    rcases List.mem_append.mp hu with hu | hu
    · exact (h.bound u hu c hc).trans (le_max_left _ _)
    · rw [List.mem_singleton.mp hu] at hc
      exact (hd.2 ⟨c, hc, rfl⟩).trans (le_max_right _ _)
  attained := by
    rcases le_total s.best d with hLe | hLe
    · obtain ⟨c, hc, hLength⟩ := hd.1
      exact .inr ⟨w, by simp, c, hc, by simp [hLe, hLength]⟩
    · rw [max_eq_left hLe]
      exact h.attained.imp_right fun ⟨u, hu, hRest⟩ => ⟨u, List.mem_append_left _ hu, hRest⟩
  ends hFalse u hu := by
    rcases List.mem_append.mp hu with hu | hu
    · exact h.ends (hCut hFalse).1 u hu
    · rw [List.mem_singleton.mp hu]
      exact (hCut hFalse).2
  valid := hKnown

structure Sounding.Tells (next : Nat → List Nat) (off : List Nat) (v : Nat) (s : Sounding) : Prop where
  longest : LongestCourse next off v s.best
  ends : s.cut = false → Ends next v
  valid : s.known.Valid next

theorem Sounding.Tallies.take {inside taken : List Nat} {s : Sounding} (h : s.Tallies next inside taken)
    {below : Nat → Depths → Sounding} {w : Nat}
    (hBelow : w ∉ inside → ∀ known, known.Valid next → (below w known).Tells next inside w)
    (hInside : ∀ t ∈ inside, ReflTransGen (fun v w => w ∈ next v) t w) :
    (s.take inside below w).Tallies next inside (taken ++ [w]) := by
  unfold Sounding.take
  split
  · -- no course begins at a node that we are inside of
    rename_i hw
    have hw : w ∈ inside := by simpa using hw
    refine ⟨fun u hu c hc => ?_, ?_, by simp, h.valid⟩
    · rcases List.mem_append.mp hu with hu | hu
      · exact h.bound u hu c hc
      · rw [List.mem_singleton.mp hu] at hc
        exact absurd hw (hc.apart w hc.mem_begin)
    · exact h.attained.imp_right fun ⟨u, hu, hRest⟩ => ⟨u, List.mem_append_left _ hu, hRest⟩
  · rename_i hw
    have hw : w ∉ inside := by simpa using hw
    split
    · rename_i d hd
      obtain ⟨hEnds, hLongest⟩ := h.valid w d hd
      exact h.add ((hEnds.longestCourse_iff hw hInside).mpr hLongest) (fun hCut => ⟨hCut, hEnds⟩) h.valid
    · obtain ⟨hLongest, hEnds, hValid⟩ := hBelow hw s.known h.valid
      refine h.add hLongest (fun hCut => ?_) hValid
      rw [Bool.or_eq_false_iff] at hCut
      exact ⟨hCut.1, hEnds hCut.2⟩

theorem Sounding.Tallies.foldl_take {inside : List Nat} {below : Nat → Depths → Sounding} (ws : List Nat)
    (hBelow : ∀ w ∈ ws, w ∉ inside → ∀ known, known.Valid next → (below w known).Tells next inside w)
    (hInside : ∀ w ∈ ws, ∀ t ∈ inside, ReflTransGen (fun v w => w ∈ next v) t w)
    {taken : List Nat} {s : Sounding} (h : s.Tallies next inside taken) :
    (ws.foldl (Sounding.take inside below) s).Tallies next inside (taken ++ ws) := by
  induction ws generalizing taken s with
  | nil => simpa using h
  | cons w ws ih =>
    have hTake := h.take (hBelow w List.mem_cons_self) (hInside w List.mem_cons_self)
    have hRest := ih (fun u hu => hBelow u (List.mem_cons_of_mem _ hu))
      (fun u hu => hInside u (List.mem_cons_of_mem _ hu)) hTake
    simpa using hRest

theorem Sounding.Tallies.longest {off : List Nat} {v : Nat} {s : Sounding}
    (h : s.Tallies next (v :: off) (next v)) (hv : v ∉ off) :
    LongestCourse next off v (s.best + 1) := by
  constructor
  · rcases h.attained with hZero | ⟨w, hw, c, hc, hLength⟩
    · refine ⟨[v], ⟨rfl, List.isChain_singleton v, List.nodup_singleton v, ?_⟩, by simp [hZero]⟩
      simpa using hv
    · exact ⟨v :: c, hc.cons hw hv, by simp [hLength]⟩
  · rintro n ⟨c, hc, rfl⟩
    rcases hc.cases_cons with rfl | ⟨w, hw, c', rfl, hc'⟩
    · simp
    · simpa using h.bound w hw c' hc'

theorem sound_tells (hNext : ∀ v, ∀ w ∈ next v, w < size) (fuel : Nat) {trail : List Nat} {node : Nat}
    {known : Depths} (hNodup : (node :: trail).Nodup) (hLt : ∀ t ∈ node :: trail, t < size)
    (hTrail : ∀ t ∈ trail, ReflTransGen (fun v w => w ∈ next v) t node)
    (hFuel : size < fuel + trail.length) (hKnown : known.Valid next) :
    (sound next fuel trail node known).Tells next trail node := by
  induction fuel generalizing trail node known with
  | zero =>
    -- a trail of distinct nodes is never longer than the graph is large
    have hLength := length_le_of_nodup hNodup hLt
    rw [List.length_cons] at hLength
    omega
  | succ fuel ih =>
    have hInside : ∀ w ∈ next node, ∀ t ∈ node :: trail, ReflTransGen (fun v w => w ∈ next v) t w := by
      intro w hw t ht
      rcases List.mem_cons.mp ht with rfl | ht
      · exact .single hw
      · exact (hTrail t ht).tail hw
    have hBelow : ∀ w ∈ next node, w ∉ node :: trail → ∀ known, Depths.Valid next known →
        (sound next fuel (node :: trail) w known).Tells next (node :: trail) w := by
      intro w hw hFresh known hKnown
      refine ih (List.nodup_cons.mpr ⟨hFresh, hNodup⟩) ?_ (hInside w hw) ?_ hKnown
      · intro t ht
        rcases List.mem_cons.mp ht with rfl | ht
        · exact hNext node t hw
        · exact hLt t ht
      · rw [List.length_cons]
        omega
    have hBegin : Sounding.Tallies next (node :: trail) [] ⟨0, false, known⟩ :=
      ⟨by simp, .inl rfl, by simp, hKnown⟩
    have hTallies := hBegin.foldl_take (next node) hBelow hInside
    rw [List.nil_append] at hTallies
    have hNode : node ∉ trail := (List.nodup_cons.mp hNodup).1
    have hLongest := hTallies.longest hNode
    have hEnds := fun hCut => (Acc.intro node (hTallies.ends hCut) : Ends next node)
    refine ⟨hLongest, hEnds, ?_⟩
    simp only [sound]
    split
    · exact hTallies.valid
    · -- the trail is out of reach, so the depth holds without it
      rename_i hCut
      have hEnds : Ends next node := hEnds (Bool.eq_false_iff.mpr hCut)
      exact hTallies.valid.cons hEnds ((hEnds.longestCourse_iff hNode hTrail).mp hLongest)

theorem depth_tells (hNext : ∀ v, ∀ w ∈ next v, w < size) {node : Nat} (hNode : node < size)
    {known : Depths} (hKnown : known.Valid next) :
    LongestCourse next [] node (depth next size node known).1 ∧
      (depth next size node known).2.Valid next := by
  unfold depth
  split
  · rename_i d hd
    exact ⟨(hKnown node d hd).2, hKnown⟩
  · have hTells : (sound next (size + 1) [] node known).Tells next [] node :=
      sound_tells hNext (size + 1) (List.nodup_singleton node) (by simpa using hNode) (by simp)
        (by simp) hKnown
    rw [Dive.run_begin hNext hNode]
    exact ⟨hTells.longest, hTells.valid⟩

structure FirstDeepest (next : Nat → List Nat) (n v d : Nat) : Prop where
  lt : v < n
  longest : LongestCourse next [] v d
  bound : ∀ w < n, ∀ e, LongestCourse next [] w e → e ≤ d
  first : ∀ w < v, ∀ e, LongestCourse next [] w e → e < d

theorem FirstDeepest.succ {n v d : Nat} (h : FirstDeepest next n v d) {e : Nat}
    (he : LongestCourse next [] n e) :
    if d < e then FirstDeepest next (n + 1) n e else FirstDeepest next (n + 1) v d := by
  have hBound : ∀ w < n + 1, ∀ k, LongestCourse next [] w k → k ≤ d ∨ k = e := by
    intro w hw k hk
    rcases Nat.lt_succ_iff_lt_or_eq.mp hw with hw | rfl
    · exact .inl (h.bound w hw k hk)
    · exact .inr (hk.unique he)
  split
  · rename_i hLt
    refine ⟨by omega, he, fun w hw k hk => ?_, fun w hw k hk => ?_⟩
    · rcases hBound w hw k hk with hk | hk <;> omega
    · have hk := h.bound w hw k hk
      omega
  · refine ⟨Nat.lt_succ_of_lt h.lt, h.longest, fun w hw k hk => ?_, h.first⟩
    rcases hBound w hw k hk with hk | hk <;> omega

theorem foldl_deepen_spec (hNext : ∀ v, ∀ w ∈ next v, w < size) (n : Nat) (hn : n ≤ size) :
    let state := (List.range n).foldl (deepen next size) (none, [])
    state.2.Valid next ∧ (state.1 = none ↔ n = 0) ∧ ∀ v d, state.1 = some (v, d) → FirstDeepest next n v d := by
  induction n with
  | zero => exact ⟨Depths.valid_nil next, by simp, by simp⟩
  | succ n ih =>
    obtain ⟨hValid, hNone, hSome⟩ := ih (by omega)
    simp only [List.range_succ, List.foldl_append, List.foldl_cons, List.foldl_nil]
    generalize (List.range n).foldl (deepen next size) (none, []) = state at *
    obtain ⟨hLongest, hValid'⟩ := depth_tells hNext (show n < size by omega) hValid
    refine ⟨hValid', ?_, ?_⟩
    · simp only [deepen]
      split
      · split <;> simp
      · simp
    · intro v d hState
      simp only [deepen] at hState
      split at hState
      · rename_i b e hBest
        have hSucc := (hSome b e hBest).succ hLongest
        split at hState <;> rename_i hLt
        · rw [if_pos hLt] at hSucc
          cases hState
          exact hSucc
        · rw [if_neg hLt] at hSucc
          cases hState
          exact hSucc
      · rename_i hBest
        obtain rfl := hNone.mp hBest
        cases hState
        refine ⟨by decide, hLongest, fun w hw k hk => ?_, by simp⟩
        obtain rfl : w = 0 := by omega
        exact (hk.unique hLongest).le

end Search

namespace FileGraph

/-- The most nodes on a chain of imports from a node that meets no node twice. -/
def LongestChain (g : FileGraph) (v d : Nat) : Prop :=
  IsGreatest {n | ∃ c : List Nat, c.head? = some v ∧ c.IsChain g.Imports ∧ c.Nodup ∧ c.length = n} d

theorem longestCourse_iff {g : FileGraph} {v d : Nat} :
    Search.LongestCourse g.successors [] v d ↔ g.LongestChain v d := by
  have hCourse : ∀ c, Search.Course g.successors [] v c ↔
      c.head? = some v ∧ c.IsChain g.Imports ∧ c.Nodup := by
    intro c
    rw [← successors_rel]
    exact ⟨fun h => ⟨h.begins, h.linked, h.nodup⟩, fun ⟨hBegins, hLinked, hNodup⟩ =>
      ⟨hBegins, hLinked, hNodup, fun _ _ => List.not_mem_nil⟩⟩
  simp only [Search.LongestCourse, LongestChain, hCourse, and_assoc]

def knownAfter (g : FileGraph) (calls : List Nat) : Search.Depths :=
  calls.foldl (fun known v => (Search.depth g.successors g.nodes.size v known).2) []

theorem Built.knownAfter_valid {g : FileGraph} (h : g.Built) (calls : List Nat)
    (hCalls : ∀ v ∈ calls, v < g.nodes.size) : (g.knownAfter calls).Valid g.successors := by
  suffices hAll : ∀ known, Search.Depths.Valid g.successors known → Search.Depths.Valid g.successors
      (calls.foldl (fun known v => (Search.depth g.successors g.nodes.size v known).2) known) from
    hAll [] (Search.Depths.valid_nil _)
  induction calls with
  | nil => exact fun known hValid => hValid
  | cons v calls ih =>
    intro known hValid
    have hStep := Search.depth_tells h.successors_lt (hCalls v List.mem_cons_self) hValid
    exact ih (fun w hw => hCalls w (List.mem_cons_of_mem _ hw)) _ hStep.2

theorem Built.longestChain_depth {g : FileGraph} (h : g.Built) {file : Path} {v : Nat}
    (hv : g.indexOf? file = some v) : g.LongestChain v (g.depth file) := by
  simp only [depth, hv]
  exact longestCourse_iff.mp (Search.depth_tells h.successors_lt (h.lt_size hv)
    (Search.Depths.valid_nil _)).1

theorem Built.longestChain_iff {g : FileGraph} (h : g.Built) {v d : Nat} (hv : v < g.nodes.size) :
    g.LongestChain v d ↔ g.depth (g.pathAt v) = d := by
  have hDepth := h.longestChain_depth (h.indexOf?_pathAt hv)
  exact ⟨fun hd => hDepth.unique hd, fun hEq => hEq ▸ hDepth⟩

structure DepthIsLongest (g : FileGraph) : Prop where
  longest : ∀ file v, g.indexOf? file = some v → g.LongestChain v (g.depth file)
  missing : ∀ file, g.indexOf? file = none → g.depth file = 0
  /-- What is known from before makes no difference. -/
  transparent : ∀ calls : List Nat, (∀ v ∈ calls, v < g.nodes.size) → ∀ v < g.nodes.size,
    (Search.depth g.successors g.nodes.size v (g.knownAfter calls)).1 = g.depth (g.pathAt v)
  deepest_eq_none : g.deepest = none ↔ g.nodes.size = 0
  deepest_eq_some : ∀ p d, g.deepest = some (p, d) → ∃ v < g.nodes.size,
    g.pathAt v = p ∧ g.depth p = d ∧ (∀ w < g.nodes.size, g.depth (g.pathAt w) ≤ d) ∧
      ∀ w < v, g.depth (g.pathAt w) < d

/-- Depths are lengths of longest chains, whatever was sounded before. -/
theorem depth_eq_longest_chain {g : FileGraph} (h : g.Built) : g.DepthIsLongest := by
  obtain ⟨_, hNone, hSome⟩ := Search.foldl_deepen_spec h.successors_lt g.nodes.size (Nat.le_refl _)
  constructor
  case longest => exact fun file v hv => h.longestChain_depth hv
  case missing =>
    intro file hFile
    simp only [depth, hFile]
  case transparent =>
    intro calls hCalls v hv
    have hTells := Search.depth_tells h.successors_lt hv (h.knownAfter_valid calls hCalls)
    exact ((h.longestChain_iff hv).mp (longestCourse_iff.mp hTells.1)).symm
  case deepest_eq_none =>
    rw [deepest, Option.map_eq_none_iff]
    exact hNone
  case deepest_eq_some =>
    intro p d hDeepest
    obtain ⟨⟨v, e⟩, hState, hEq⟩ := Option.map_eq_some_iff.mp hDeepest
    cases hEq
    obtain ⟨hv, hLongest, hBound, hFirst⟩ := hSome v d hState
    have hDepth : ∀ w < g.nodes.size, Search.LongestCourse g.successors [] w (g.depth (g.pathAt w)) :=
      fun w hw => longestCourse_iff.mpr ((h.longestChain_iff hw).mpr rfl)
    refine ⟨v, hv, rfl, (h.longestChain_iff hv).mp (longestCourse_iff.mp hLongest), ?_, ?_⟩
    · exact fun w hw => hBound w hw _ (hDepth w hw)
    · exact fun w hw => hFirst w hw _ (hDepth w (hw.trans hv))

/-- Two loops through the first file, and a part below that both of them lead to. -/
def eddy : FileGraph :=
  sketch ["a", "b", "c", "d", "e"]
    [("a", "b"), ("b", "c"), ("c", "a"), ("b", "a"), ("a", "d"), ("c", "d"), ("d", "e")]

theorem eddy_depth_eq_longest_chain : eddy.Built ∧ eddy.DepthIsLongest :=
  ⟨sketch_built _ _, depth_eq_longest_chain (sketch_built _ _)⟩

end FileGraph

end ModuleAtlas
