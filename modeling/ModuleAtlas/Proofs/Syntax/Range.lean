import ModuleAtlas.Proofs.Syntax.Ends
import ModuleAtlas.Proofs.Syntax.Placement
import ModuleAtlas.Proofs.Syntax.Sound

/-!
# Where parsers read

A parser never goes back, and what it gives lies between where it started and where it stopped.
As with soundness, this is found by instance search along the text of a composed parser. A node
that was read earlier is known by the positions between which it lies, so that a parser that builds
a branch over such nodes may give something that starts before its own start. The statements and
declarators that declare something take up some text.
-/

namespace ModuleAtlas

set_option autoImplicit false

namespace Kind

/-- The kinds that may be empty: all but those of which a declaration covers the text. -/
@[reducible]
def isNarrow : Kind → Bool
  | .functionDeclaration | .generatorFunctionDeclaration | .classDeclaration | .abstractClassDeclaration
  | .variableDeclarator | .exportStatement => false
  | _ => true

class Narrow (k : Kind) : Prop where
  isNarrow : k.isNarrow = true

instance {k : Kind} [h : IsTrue k.isNarrow] : k.Narrow := ⟨h.eq⟩

instance {c : Prop} [Decidable c] {k l : Kind} [k.Narrow] [l.Narrow] : Narrow (if c then k else l) := by
  split <;> assumption

end Kind

namespace Node

variable {lo lo' hi hi' mid : Nat} {n : Node} {ns ms : List Node}

theorem Placed.widen (hLo : lo' ≤ lo) (hHi : hi ≤ hi') (h : Placed lo hi ns) : Placed lo' hi' ns := by
  induction ns generalizing lo lo' with
  | nil => exact Nat.le_trans hLo (Nat.le_trans h hHi)
  | cons n ns ih => exact ⟨Nat.le_trans hLo h.1, h.2.1, ih (Nat.le_refl _) h.2.2⟩

theorem Placed.append (h : Placed lo mid ns) (h' : Placed mid hi ms) : Placed lo hi (ns ++ ms) := by
  induction ns generalizing lo with
  | nil => exact h'.widen h (Nat.le_refl hi)
  | cons n ns ih => exact ⟨h.1, h.2.1, ih h.2.2⟩

/-- A node that is empty only if it is narrow or has nothing in it. -/
def Stretched (n : Node) : Prop := n.kind.isNarrow = true ∨ n.children = [] ∨ n.start < n.stop

structure Formed (n : Node) : Prop where
  wellFormed : n.WellFormed
  stretched : ∀ m ∈ n.nodes, m.Stretched

theorem formed_iff : n.Formed ↔
    Placed n.start n.stop n.children ∧ n.Stretched ∧ ∀ c ∈ n.children, c.Formed := by
  constructor
  · intro h
    obtain ⟨hPlaced, hChildren⟩ := wellFormed_iff.mp h.wellFormed
    refine ⟨hPlaced, h.stretched n n.self_mem_nodes, fun c hc => ⟨hChildren c hc, fun m hm => ?_⟩⟩
    exact h.stretched m (mem_nodes_of_child hc hm)
  · rintro ⟨hPlaced, hStretched, hChildren⟩
    refine ⟨wellFormed_iff.mpr ⟨hPlaced, fun c hc => (hChildren c hc).wellFormed⟩, fun m hm => ?_⟩
    rw [nodes_eq, List.mem_cons, List.mem_flatMap] at hm
    rcases hm with rfl | ⟨c, hc, hm⟩
    · exact hStretched
    · exact (hChildren c hc).stretched m hm

theorem formed_leaf {k : Kind} {r : Option Role} {i : Nat} {t : String} : (leaf k r i t).Formed :=
  formed_iff.mpr ⟨Nat.le_add_right i _, .inr (.inl rfl), nofun⟩

/-- A formed node between two positions. -/
structure Lies (lo hi : Nat) (n : Node) : Prop where
  formed : n.Formed
  start : lo ≤ n.start
  stop : n.stop ≤ hi

theorem Lies.proper (h : n.Lies lo hi) : n.start ≤ n.stop := h.formed.wellFormed.inside_self.proper

theorem Lies.le (h : n.Lies lo hi) : lo ≤ hi := Nat.le_trans h.start (Nat.le_trans h.proper h.stop)

theorem Lies.widen (hLo : lo' ≤ lo) (hHi : hi ≤ hi') (h : n.Lies lo hi) : n.Lies lo' hi' :=
  ⟨h.formed, Nat.le_trans hLo h.start, Nat.le_trans h.stop hHi⟩

theorem lies_leaf {k : Kind} {r : Option Role} {i : Nat} {t : String} (hLo : lo ≤ i)
    (hHi : i + t.utf8ByteSize ≤ hi) : (leaf k r i t).Lies lo hi :=
  ⟨formed_leaf, hLo, hHi⟩

/-- Formed nodes between two positions, each after the one before. -/
structure AllLie (lo hi : Nat) (ns : List Node) : Prop where
  placed : Placed lo hi ns
  formed : ∀ n ∈ ns, n.Formed

theorem allLie_nil (h : lo ≤ hi) : AllLie lo hi [] := ⟨h, fun _ hn => absurd hn List.not_mem_nil⟩

theorem AllLie.cons (hn : n.Lies lo mid) (hns : AllLie mid hi ns) : AllLie lo hi (n :: ns) :=
  ⟨⟨hn.start, hn.proper, hns.placed.widen hn.stop (Nat.le_refl hi)⟩,
    List.forall_mem_cons.mpr ⟨hn.formed, hns.formed⟩⟩

theorem AllLie.append (hns : AllLie lo mid ns) (hms : AllLie mid hi ms) : AllLie lo hi (ns ++ ms) :=
  ⟨hns.placed.append hms.placed, List.forall_mem_append.mpr ⟨hns.formed, hms.formed⟩⟩

theorem AllLie.widen (hLo : lo' ≤ lo) (hHi : hi ≤ hi') (h : AllLie lo hi ns) : AllLie lo' hi' ns :=
  ⟨h.placed.widen hLo hHi, h.formed⟩

theorem AllLie.singleton (h : n.Lies lo hi) : AllLie lo hi [n] := .cons h (allLie_nil (Nat.le_refl hi))

theorem lies_branch {k : Kind} {r : Option Role} {i : Nat} (hLo : lo ≤ i) (h : AllLie i hi ns)
    (hStretched : (branch k r i hi ns).Stretched) : (branch k r i hi ns).Lies lo hi :=
  ⟨formed_iff.mpr ⟨h.placed, hStretched, h.formed⟩, hLo, Nat.le_refl hi⟩

end Node

/-- The things that a parser may give, and when one lies between two positions. -/
class Ranged (α : Type) where
  Lies : Nat → Nat → α → Prop
  le : ∀ {lo hi : Nat} {a : α}, Lies lo hi a → lo ≤ hi
  widen : ∀ {lo lo' hi hi' : Nat} {a : α}, lo' ≤ lo → hi ≤ hi' → Lies lo hi a → Lies lo' hi' a

instance : Ranged Node := ⟨fun lo hi n => n.Lies lo hi, fun h => h.le, fun hLo hHi h => h.widen hLo hHi⟩

instance : Ranged (List Node) :=
  ⟨Node.AllLie, fun h => h.placed.le, fun hLo hHi h => h.widen hLo hHi⟩

instance {α β : Type} [Ranged α] [Ranged β] : Ranged (α × β) where
  Lies lo hi r := ∃ mid, Ranged.Lies lo mid r.1 ∧ Ranged.Lies mid hi r.2
  le := fun ⟨_, hFirst, hSecond⟩ => Nat.le_trans (Ranged.le hFirst) (Ranged.le hSecond)
  widen := fun hLo hHi ⟨mid, hFirst, hSecond⟩ =>
    ⟨mid, Ranged.widen hLo (Nat.le_refl mid) hFirst, Ranged.widen (Nat.le_refl mid) hHi hSecond⟩

/-- The things that have no place in the text. -/
class Unplaced (α : Type)

instance : Unplaced Unit := ⟨⟩
instance : Unplaced Bool := ⟨⟩
instance : Unplaced Nat := ⟨⟩
instance : Unplaced UInt8 := ⟨⟩
instance : Unplaced String := ⟨⟩
instance : Unplaced Source := ⟨⟩

instance {α : Type} [Unplaced α] : Ranged α where
  Lies lo hi _ := lo ≤ hi
  le h := h
  widen hLo hHi h := Nat.le_trans hLo (Nat.le_trans h hHi)

/-- A thing that was read from a position on, with the position where reading stopped; it may have
been built over things that were read from `lo` on. -/
structure Stretch (lo i : Nat) (α : Type) [Ranged α] where
  val : α
  stop : Nat
  le : i ≤ stop
  lies : Ranged.Lies lo stop val

/-- Order of positions, as far as it follows from the order of reading. -/
class Reaches (i j : Nat) : Prop where
  le : i ≤ j

instance (i : Nat) : Reaches i i := ⟨Nat.le_refl i⟩
instance {α : Type} [Ranged α] {lo i k : Nat} (r : Stretch lo i α) [h : Reaches k i] : Reaches k r.stop :=
  ⟨Nat.le_trans h.le r.le⟩

namespace Node

class Between (n : Node) (lo hi : outParam Nat) : Prop where
  lies : n.Lies lo hi

/-- Nodes that lie between two positions, of which the second is known from the nodes. -/
class Run (ns : List Node) (lo : Nat) (hi : outParam Nat) : Prop where
  lies : AllLie lo hi ns

/-- A position before which none of the nodes starts. -/
class From (ns : List Node) (lo : outParam Nat) : Prop

section Between

variable {n m : Node} {ns ms : List Node} {lo hi mid a b i : Nat}

instance (r : Stretch lo i Node) : Between r.val lo r.stop := ⟨r.lies⟩

theorem start_asRole (n : Node) (r : Role) : (n.asRole r).start = n.start := by
  cases n <;> rfl

instance {r : Role} [h : Between n lo hi] : Between (n.asRole r) lo hi := by
  obtain ⟨⟨hFormed, hStart, hStop⟩⟩ := h
  obtain ⟨hPlaced, hStretched, hChildren⟩ := formed_iff.mp hFormed
  cases n <;> exact ⟨⟨formed_iff.mpr ⟨hPlaced, hStretched, hChildren⟩, hStart, hStop⟩⟩

instance {k : Kind} [hk : k.Narrow] [h : Between n lo hi] : Between (n.asKind k) lo hi := by
  obtain ⟨⟨hFormed, hStart, hStop⟩⟩ := h
  obtain ⟨hPlaced, -, hChildren⟩ := formed_iff.mp hFormed
  cases n <;> exact ⟨⟨formed_iff.mpr ⟨hPlaced, .inl hk.isNarrow, hChildren⟩, hStart, hStop⟩⟩

instance {c : Prop} [Decidable c] [hn : Between n lo hi] [hm : Between m lo hi] :
    Between (if c then n else m) lo hi := by
  split <;> assumption

instance : Run [] lo lo := ⟨allLie_nil (Nat.le_refl lo)⟩

instance [hn : Between n a b] [hLo : Reaches lo a] [hns : Run ns b hi] : Run (n :: ns) lo hi :=
  ⟨.cons (hn.lies.widen hLo.le (Nat.le_refl b)) hns.lies⟩

instance [hns : Run ns lo mid] [hms : Run ms mid hi] : Run (ns ++ ms) lo hi :=
  ⟨hns.lies.append hms.lies⟩

instance (r : Stretch a i (List Node)) [hLo : Reaches lo a] : Run r.val lo r.stop :=
  ⟨r.lies.widen hLo.le (Nat.le_refl _)⟩

theorem allLie_map {role : Role} (h : AllLie lo hi ns) : AllLie lo hi (ns.map (·.asRole role)) := by
  induction ns generalizing lo with
  | nil => exact h
  | cons n ns ih =>
    obtain ⟨⟨hStart, -, hRest⟩, hFormed⟩ := h
    obtain ⟨hn, hns⟩ := List.forall_mem_cons.mp hFormed
    have hBetween : Between n lo n.stop := ⟨hn, hStart, Nat.le_refl _⟩
    exact .cons (Between.lies (n := n.asRole role)) (ih ⟨hRest, hns⟩)

instance {role : Role} [h : Run ns lo hi] : Run (ns.map (·.asRole role)) lo hi := ⟨allLie_map h.lies⟩

instance [Between n a b] : From (n :: ns) a := ⟨⟩
instance [From ns a] : From (ns ++ ms) a := ⟨⟩
instance (r : Stretch a i (List Node)) : From r.val a := ⟨⟩

end Between

end Node

open Node

/-- The other rules never go back, and give nodes that lie in what they read. -/
structure Site.Ranged (site : Site) : Prop where
  le : ∀ g i n j, site.parse g i = some (n, j) → i ≤ j
  lies : ∀ g i n j, site.parse g i = some (n, j) → n.Lies i j

namespace Parser

variable {α β γ : Type}

theorem exists_of_bind {p : Parser α} {f : α → Parser β} {site : Site} {i : Nat} {r : β × Nat}
    (h : (p >>= f) site i = some r) : ∃ a j, p site i = some (a, j) ∧ f a site j = some r := by
  have hBind : p.bind f site i = some r := h
  unfold Parser.bind at hBind
  split at hBind
  case h_1 a j ha => exact ⟨a, j, ha, hBind⟩
  case h_2 => cases hBind

theorem cases_of_orElse {p q : Parser α} {site : Site} {i : Nat} {r : α × Nat}
    (h : (p <|> q) site i = some r) : p site i = some r ∨ q site i = some r := by
  have hElse : p.orElse (fun _ => q) site i = some r := h
  unfold Parser.orElse at hElse
  split at hElse
  case h_1 r hr => exact .inl (hr.trans hElse)
  case h_2 => exact .inr hElse

/-- From position `i` on the parser goes forward and gives what lies after `lo`. -/
class Reads [Ranged α] (lo i : Nat) (p : Parser α) : Prop where
  reads : ∀ site, Site.Ranged site → ∀ a j, p site i = some (a, j) → i ≤ j ∧ Ranged.Lies lo j a

/-- From every position on the parser goes forward and gives what lies after it. -/
class Steady [Ranged α] (p : Parser α) : Prop where
  reads : ∀ i, p.Reads i i

section Instances

variable [Ranged α] [Ranged β] [Ranged γ] {lo i : Nat}

theorem Reads.widen {lo' : Nat} {p : Parser α} (h : p.Reads lo i) (hLo : lo' ≤ lo) : p.Reads lo' i :=
  ⟨fun site hSite a j ha =>
    (h.reads site hSite a j ha).imp_right (Ranged.widen hLo (Nat.le_refl j))⟩

theorem Reads.bind {m : Nat} {p : Parser α} {f : α → Parser β} (hp : p.Reads m i)
    (hf : ∀ r : Stretch m i α, (f r.val).Reads lo r.stop) : (p >>= f).Reads lo i := by
  refine ⟨fun site hSite b j h => ?_⟩
  obtain ⟨a, k, ha, hb⟩ := exists_of_bind h
  obtain ⟨hLe, hLies⟩ := hp.reads site hSite a k ha
  exact ((hf ⟨a, k, hLe, hLies⟩).reads site hSite b j hb).imp_left (Nat.le_trans hLe)

theorem Reads.step {p : Parser α} {f : α → Parser β} [hp : p.Reads i i]
    (hf : ∀ r : Stretch i i α, (f r.val).Reads lo r.stop) : (p >>= f).Reads lo i :=
  .bind hp hf

theorem Reads.ite {c : Prop} [Decidable c] {p q : Parser α} (hp : p.Reads lo i) (hq : q.Reads lo i) :
    (if c then p else q : Parser α).Reads lo i := by
  split <;> assumption

theorem Reads.branch {c : Prop} [Decidable c] {p q : Parser α} {f : α → Parser β} [p.Reads i i] [q.Reads i i]
    (hf : ∀ r : Stretch i i α, (f r.val).Reads lo r.stop) :
    (if c then p >>= f else q >>= f : Parser β).Reads lo i :=
  .ite (.step hf) (.step hf)

instance (priority := low) {p : Parser α} [hp : p.Steady] [hLo : Reaches lo i] : p.Reads lo i :=
  (hp.reads i).widen hLo.le

instance {p : Parser α} {f : α → Parser β} [hp : p.Reads i i]
    [hf : ∀ r : Stretch i i α, (f r.val).Reads lo r.stop] : (p >>= f).Reads lo i :=
  .step hf

-- A pair is taken apart at once; a match on it would hide the rest from the search.
theorem Reads.pair {p : Parser (α × β)} {f : α × β → Parser γ} [hp : p.Reads i i]
    (hf : ∀ (r : Stretch i i α) (r' : Stretch r.stop r.stop β), (f (r.val, r'.val)).Reads lo r'.stop) :
    (p >>= f).Reads lo i := by
  refine .bind hp fun ⟨(a, b), stop, hLe, hLies⟩ => ?_
  obtain ⟨mid, ha, hb⟩ := hLies
  exact hf ⟨a, mid, Ranged.le ha, ha⟩ ⟨b, stop, Ranged.le hb, hb⟩

instance {p : Parser (α × β)} {f : α × β → Parser γ} [hp : p.Reads i i]
    [hf : ∀ (r : Stretch i i α) (r' : Stretch r.stop r.stop β), (f (r.val, r'.val)).Reads lo r'.stop] :
    (p >>= f).Reads lo i :=
  .pair hf

instance {a : α} {f : α → Parser β} [hf : (f a).Reads lo i] : (pure a >>= f).Reads lo i := hf

theorem Reads.orElse {p q : Parser α} (hp : p.Reads lo i) (hq : q.Reads lo i) : (p <|> q).Reads lo i := by
  refine ⟨fun site hSite a j h => ?_⟩
  rcases cases_of_orElse h with h | h
  · exact hp.reads site hSite a j h
  · exact hq.reads site hSite a j h

instance {p q : Parser α} [hp : p.Reads lo i] [hq : q.Reads lo i] : (p <|> q).Reads lo i := .orElse hp hq

instance {c : Prop} [Decidable c] {p q : Parser α} [hp : p.Reads lo i] [hq : q.Reads lo i] :
    (if c then p else q : Parser α).Reads lo i :=
  .ite hp hq

instance : (fail : Parser α).Reads lo i := ⟨fun _ _ _ _ h => nomatch h⟩

theorem reads_pure {a : α} (h : Ranged.Lies lo i a) : (pure a : Parser α).Reads lo i := by
  refine ⟨fun site _ b j hb => ?_⟩
  cases hb
  exact ⟨Nat.le_refl i, h⟩

end Instances

section Nodes

variable {lo hi a b i : Nat}

instance {n : Node} [hn : Between n a b] [hLo : Reaches lo a] [hHi : Reaches b i] :
    (pure n : Parser Node).Reads lo i :=
  reads_pure (hn.lies.widen hLo.le hHi.le)

instance {n m : Node} {c d : Nat} [hn : Between n a b] [hm : Between m c d] [hLo : Reaches lo a]
    [hMid : Reaches b c] [hHi : Reaches d i] : (pure (n, m) : Parser (Node × Node)).Reads lo i :=
  reads_pure ⟨b, hn.lies.widen hLo.le (Nat.le_refl b), hm.lies.widen hMid.le hHi.le⟩

instance {ns : List Node} [hns : Run ns lo hi] [hHi : Reaches hi i] :
    (pure ns : Parser (List Node)).Reads lo i :=
  reads_pure (hns.lies.widen (Nat.le_refl lo) hHi.le)

theorem reads_node {k : Kind} {cs : List Node} [hcs : Run cs lo hi] [hHi : Reaches hi i]
    (hStretched : k.isNarrow = true ∨ ∃ c ∈ cs, c.start < i) : (node k cs).Reads lo i := by
  refine ⟨fun site _ n j h => ?_⟩
  have hLies := hcs.lies.widen (Nat.le_refl lo) hHi.le
  cases cs with
  | nil =>
    cases h
    exact ⟨Nat.le_refl i, lies_branch hLies.placed.le (allLie_nil (Nat.le_refl i)) (.inr (.inl rfl))⟩
  | cons c cs =>
    cases h
    obtain ⟨⟨hStart, hProper, hRest⟩, hFormed⟩ := hLies
    refine ⟨Nat.le_refl i, lies_branch hStart ⟨⟨Nat.le_refl _, hProper, hRest⟩, hFormed⟩ ?_⟩
    refine hStretched.imp_right fun ⟨d, hd, hLt⟩ => .inr (Nat.lt_of_le_of_lt ?_ hLt)
    rcases List.mem_cons.mp hd with rfl | hd
    · exact Nat.le_refl _
    · exact Nat.le_trans hProper (hRest.bounds hd).1

theorem reads_stretched {k : Kind} {cs : List Node} [Run cs lo hi] [Reaches hi i] {c : Node} (hc : c ∈ cs)
    {j : Nat} (hStart : c.start < j) [hStop : Reaches j i] : (node k cs).Reads lo i :=
  reads_node (.inr ⟨c, hc, Nat.lt_of_lt_of_le hStart hStop.le⟩)

instance {k : Kind} {cs : List Node} [hk : k.Narrow] [Run cs lo hi] [Reaches hi i] : (node k cs).Reads lo i :=
  reads_node (.inl hk.isNarrow)

-- A branch over earlier nodes starts where the first of them does.
instance [Ranged β] {k : Kind} {cs : List Node} {f : Node → Parser β} [k.Narrow] [From cs a] [Run cs a hi]
    [Reaches hi i] [hf : ∀ r : Stretch a i Node, (f r.val).Reads lo r.stop] : (node k cs >>= f).Reads lo i :=
  .bind (m := a) inferInstance hf

instance [Ranged β] {n : Node} {p : Parser Node} {f : Node → Parser β} [Between n a b] [Reaches b i]
    [p.Reads a i] [hf : ∀ r : Stretch a i Node, (f r.val).Reads lo r.stop] :
    ((p <|> pure n) >>= f).Reads lo i :=
  .bind (m := a) inferInstance hf

end Nodes

section Repeated

variable {lo a b i : Nat}

instance {p : Parser Node} [hp : ∀ j, p.Reads j j] : (maybe p).Steady := by
  refine ⟨fun i => ⟨fun site hSite ns j h => ?_⟩⟩
  unfold maybe at h
  split at h
  case h_1 n k hn =>
    cases h
    exact ((hp i).reads site hSite n j hn).imp_right AllLie.singleton
  case h_2 =>
    cases h
    exact ⟨Nat.le_refl i, allLie_nil (Nat.le_refl i)⟩

instance {p : Parser (List Node)} [hp : ∀ j, p.Reads j j] : (maybeAll p).Steady := by
  refine ⟨fun i => ⟨fun site hSite ns j h => ?_⟩⟩
  unfold maybeAll at h
  split at h
  case h_1 r hr => exact (hp i).reads site hSite ns j (hr.trans h)
  case h_2 =>
    cases h
    exact ⟨Nat.le_refl i, allLie_nil (Nat.le_refl i)⟩

theorem many_go_lies {p : Parser (List Node)} (hp : ∀ j, p.Reads j j) {site : Site} (hSite : site.Ranged)
    (fuel : Nat) {acc : Array Node} (hAcc : AllLie lo i acc.toList) :
    i ≤ (many.go p site fuel i acc).2 ∧
      AllLie lo (many.go p site fuel i acc).2 (many.go p site fuel i acc).1.toList := by
  induction fuel generalizing i acc with
  | zero => exact ⟨Nat.le_refl i, hAcc⟩
  | succ fuel ih =>
    unfold many.go
    split
    case h_1 ns j hns =>
      obtain ⟨hLe, hLies⟩ := (hp i).reads site hSite ns j hns
      have hMore : AllLie lo j (ns.foldl Array.push acc).toList := by
        rw [List.foldl_push_eq_append', Array.toList_append]
        exact hAcc.append hLies
      split
      · exact (ih hMore).imp_left (Nat.le_trans hLe)
      · exact ⟨Nat.le_refl i, hAcc⟩
    case h_2 => exact ⟨Nat.le_refl i, hAcc⟩

instance {p : Parser (List Node)} [hp : ∀ j, p.Reads j j] : (many p).Steady := by
  refine ⟨fun i => ⟨fun site hSite ns j h => ?_⟩⟩
  cases h
  exact many_go_lies hp hSite _ (allLie_nil (Nat.le_refl i))

theorem grow_go_lies {step : Node → Parser Node}
    (hStep : ∀ j (r : Stretch lo j Node), (step r.val).Reads lo r.stop) {site : Site} (hSite : site.Ranged)
    (fuel : Nat) {n : Node} (hn : n.Lies lo i) :
    i ≤ (grow.go step site fuel n i).2 ∧ (grow.go step site fuel n i).1.Lies lo (grow.go step site fuel n i).2 := by
  induction fuel generalizing n i with
  | zero => exact ⟨Nat.le_refl i, hn⟩
  | succ fuel ih =>
    unfold grow.go
    split
    case h_1 m j hm =>
      obtain ⟨hLe, hLies⟩ := (hStep i ⟨n, i, Nat.le_refl i, hn⟩).reads site hSite m j hm
      split
      · exact (ih hLies).imp_left (Nat.le_trans hLe)
      · exact ⟨Nat.le_refl i, hn⟩
    case h_2 => exact ⟨Nat.le_refl i, hn⟩

theorem reads_grow {step : Node → Parser Node} {n : Node} [hn : Between n a b] [hHi : Reaches b i]
    (hStep : ∀ j (r : Stretch a j Node), (step r.val).Reads a r.stop) : (grow step n).Reads a i := by
  refine ⟨fun site hSite m j h => ?_⟩
  have hGrown := grow_go_lies hStep hSite (site.source.size + 1 - i) (hn.lies.widen (Nat.le_refl a) hHi.le)
  rwa [Option.some.inj h] at hGrown

instance {step : Node → Parser Node} {n : Node} [Between n a b] [Reaches b i] [hLo : Reaches lo a]
    [hStep : ∀ j (r : Stretch a j Node), (step r.val).Reads a r.stop] : (grow step n).Reads lo i :=
  (reads_grow hStep).widen hLo.le

-- What has grown starts where the node that it grew from does.
instance {β : Type} [Ranged β] {step : Node → Parser Node} {n : Node} {f : Node → Parser β}
    [Between n a b] [Reaches b i] [hStep : ∀ j (r : Stretch a j Node), (step r.val).Reads a r.stop]
    [hf : ∀ r : Stretch a i Node, (f r.val).Reads lo r.stop] : (grow step n >>= f).Reads lo i :=
  .bind (reads_grow hStep) hf

end Repeated

section Unplaced

variable [Unplaced α] [Ranged β] {lo i : Nat}

instance {a : α} [h : Reaches lo i] : (pure a : Parser α).Reads lo i := reads_pure h.le

theorem steady_of_still {p : Parser α} (h : ∀ site i a j, p site i = some (a, j) → i ≤ j) : p.Steady :=
  ⟨fun i => ⟨fun site _ a j ha => ⟨h site i a j ha, h site i a j ha⟩⟩⟩

instance {p : Parser α} : (ahead p).Steady := by
  refine steady_of_still fun site i a j h => ?_
  obtain ⟨r, -, hr⟩ := Option.map_eq_some_iff.mp h
  cases hr
  exact Nat.le_refl i

instance : position.Steady := steady_of_still fun site i a j h => by cases h; exact Nat.le_refl i
instance : source.Steady := steady_of_still fun site i a j h => by cases h; exact Nat.le_refl i
instance : typed.Steady := steady_of_still fun site i a j h => by cases h; exact Nat.le_refl i
instance : nextByte.Steady := steady_of_still fun site i a j h => by cases h; exact Nat.le_refl i
instance : nextWord.Steady := steady_of_still fun site i a j h => by cases h; exact Nat.le_refl i
instance : atEnd.Steady := steady_of_still fun site i a j h => by cases h; exact Nat.le_refl i
instance (text : String) : (looking text).Steady :=
  steady_of_still fun site i a j h => by cases h; exact Nat.le_refl i
instance (place : Semicolon.Place) : (endsHere place).Steady :=
  steady_of_still fun site i a j h => by cases h; exact Nat.le_refl i
instance (b : Bool) : (ensure b).Steady :=
  steady_of_still fun site i a j h => by cases (Option.ite_none_right_eq_some.mp h).2; exact Nat.le_refl i
instance : skip.Steady :=
  steady_of_still fun site i a j h => by cases h; exact Lexeme.le_skipTrivia site.source i
instance : skipWide.Steady :=
  steady_of_still fun site i a j h => by cases h; exact Lexeme.le_skipWideTrivia site.source i

instance : nextBytes.Steady := by
  refine ⟨fun i => ⟨fun site _ a j h => ?_⟩⟩
  cases h
  exact ⟨Nat.le_refl i, i, Nat.le_refl i, Nat.le_refl i⟩

instance (flow : Flow) : (stopsHere flow).Steady := ⟨fun i => by unfold stopsHere; infer_instance⟩

instance (ending : Option Semicolon.Place) : (stopsAt ending).Steady := by
  refine ⟨fun i => ?_⟩
  cases ending <;> unfold stopsAt <;> infer_instance

instance (place : Semicolon.Place) : (settle place).Steady := by
  refine steady_of_still fun site i a j h => ?_
  cases h
  cases hEnd : Semicolon.end? site.dialect site.source place i with
  | none => exact Nat.le_refl i
  | some j => exact Semicolon.le_of_end? hEnd

instance {f : Dialect → Parser β} [hScript : (f .script).Reads lo i] [hTyped : (f .typed).Reads lo i]
    [hMarkup : (f .typedMarkup).Reads lo i] : (dialect >>= f).Reads lo i := by
  refine ⟨fun site hSite b j h => ?_⟩
  have hDialect : f site.dialect site i = some (b, j) := h
  cases hCase : site.dialect with
  | script => exact hScript.reads site hSite b j (hCase ▸ hDialect)
  | typed => exact hTyped.reads site hSite b j (hCase ▸ hDialect)
  | typedMarkup => exact hMarkup.reads site hSite b j (hCase ▸ hDialect)

end Unplaced

section Leaves

instance (g : Goal) : (goal g).Steady :=
  ⟨fun i => ⟨fun _ hSite n j h => ⟨hSite.le g i n j h, hSite.lies g i n j h⟩⟩⟩

/-- A parser that gives one leaf, of which the text is no longer than what was read. -/
theorem steady_of_leaf {p : Parser Node} (h : ∀ site i n j, p site i = some (n, j) →
    ∃ k start text, i ≤ start ∧ start + text.utf8ByteSize ≤ j ∧ n = .leaf k none start text) : p.Steady := by
  refine ⟨fun i => ⟨fun site _ n j hn => ?_⟩⟩
  obtain ⟨k, start, text, hStart, hStop, rfl⟩ := h site i n j hn
  exact ⟨Nat.le_trans hStart (Nat.le_of_add_right_le hStop), lies_leaf hStart hStop⟩

theorem slice_fits {s : Source} {i j : Nat} (h : i ≤ j) : i + (s.slice i j).utf8ByteSize ≤ j := by
  have := s.utf8ByteSize_slice_le i j
  omega

instance (text : String) : (mark text).Steady := by
  refine steady_of_leaf fun site i n j h => ?_
  cases (Option.ite_none_right_eq_some.mp h).2
  exact ⟨_, _, _, Lexeme.le_skipTrivia _ _, Nat.le_refl _, rfl⟩

instance : equals.Steady := by
  refine steady_of_leaf fun site i n j h => ?_
  cases (Option.ite_none_right_eq_some.mp h).2
  exact ⟨_, _, _, Lexeme.le_skipTrivia _ _, Nat.le_refl _, rfl⟩

instance (text : String) : (keyword text).Steady := by
  refine steady_of_leaf fun site i n j h => ?_
  obtain ⟨hWord, h⟩ := Option.ite_none_right_eq_some.mp h
  cases h
  simp only [Bool.and_eq_true, beq_iff_eq] at hWord
  exact ⟨_, _, _, Lexeme.le_skipTrivia _ _, Nat.le_of_eq hWord.1.symm, rfl⟩

instance (k : Kind) (ok : String → Bool) : (wordWhere k ok).Steady := by
  refine steady_of_leaf fun site i n j h => ?_
  obtain ⟨hWord, h⟩ := Option.ite_none_right_eq_some.mp h
  cases (Option.ite_none_right_eq_some.mp h).2
  exact ⟨_, _, _, Lexeme.le_skipTrivia _ _, slice_fits (Nat.le_of_lt hWord), rfl⟩

instance (k : Kind) : (word k).Steady := by
  refine steady_of_leaf fun site i n j h => ?_
  obtain ⟨hWord, h⟩ := Option.ite_none_right_eq_some.mp h
  cases h
  exact ⟨_, _, _, Lexeme.le_skipTrivia _ _, slice_fits (Nat.le_of_lt hWord), rfl⟩

instance (texts : List String) : (keywordOf texts).Steady := inferInstanceAs (wordWhere _ _).Steady

theorem steady_lexeme {k : Kind} {stop? : Source → Nat → Option Nat}
    (hStop : ∀ s i j, stop? s i = some j → i ≤ j) : (lexeme k stop?).Steady := by
  refine steady_of_leaf fun site i n j h => ?_
  unfold lexeme at h
  dsimp only at h
  split at h
  case h_1 l hl =>
    cases h
    exact ⟨_, _, _, Lexeme.le_skipTrivia _ _, slice_fits (hStop _ _ _ hl), rfl⟩
  case h_2 => cases h

instance (place : Semicolon.Place) : (semicolon place).Steady := by
  refine ⟨fun i => ⟨fun site hSite ns j h => ?_⟩⟩
  unfold semicolon at h
  split at h
  case h_1 k hk =>
    cases h
    exact ⟨Semicolon.le_of_end? hk, allLie_nil (Semicolon.le_of_end? hk)⟩
  case h_2 =>
    split at h
    case h_1 n k hn =>
      cases h
      exact ((Steady.reads (p := mark ";") i).reads site hSite n j hn).imp_right AllLie.singleton
    case h_2 => cases h

end Leaves

section Begins

variable {lo i : Nat} {p q : Parser Node} {f : α → Parser Node} {k : Kind}

/-- What the parser gives starts before the position where it stops. -/
def Begins (p : Parser Node) : Prop :=
  ∀ site, Site.Ranged site → ∀ i n j, p site i = some (n, j) → n.start < j

theorem Reads.begin [Ranged β] {f : Node → Parser β} [hp : p.Reads i i] (hBegins : p.Begins)
    (hf : ∀ r : Stretch i i Node, r.val.start < r.stop → (f r.val).Reads lo r.stop) : (p >>= f).Reads lo i := by
  refine ⟨fun site hSite b j h => ?_⟩
  obtain ⟨n, k, hn, hb⟩ := exists_of_bind h
  obtain ⟨hLe, hLies⟩ := hp.reads site hSite n k hn
  have hLt := hBegins site hSite i n k hn
  exact ((hf ⟨n, k, hLe, hLies⟩ hLt).reads site hSite b j hb).imp_left (Nat.le_trans hLe)

theorem Begins.orElse (hp : p.Begins) (hq : q.Begins) : (p <|> q).Begins := by
  intro site hSite i n j h
  exact (cases_of_orElse h).elim (hp site hSite i n j) (hq site hSite i n j)

theorem Begins.after {p : Parser α} (hf : ∀ a, (f a).Begins) : (p >>= f).Begins := by
  intro site hSite i n j h
  obtain ⟨a, k, -, hn⟩ := exists_of_bind h
  exact hf a site hSite k n j hn

theorem begins_wordWhere (k : Kind) (ok : String → Bool) : (wordWhere k ok).Begins := by
  intro site _ i n j h
  obtain ⟨hWord, h⟩ := Option.ite_none_right_eq_some.mp h
  cases (Option.ite_none_right_eq_some.mp h).2
  exact hWord

theorem begins_word (k : Kind) : (word k).Begins := by
  intro site _ i n j h
  obtain ⟨hWord, h⟩ := Option.ite_none_right_eq_some.mp h
  cases h
  exact hWord

theorem begins_keyword {text : String} (hText : 0 < text.utf8ByteSize) : (keyword text).Begins := by
  intro site _ i n j h
  obtain ⟨hWord, h⟩ := Option.ite_none_right_eq_some.mp h
  cases h
  simp only [Bool.and_eq_true, beq_iff_eq] at hWord
  exact Nat.lt_of_lt_of_eq (Nat.lt_add_of_pos_right hText) hWord.1.symm

/-- What the parser gives starts where the node does. -/
def StartsWith (c : Node) (p : Parser Node) : Prop := ∀ site i n j, p site i = some (n, j) → n.start = c.start

theorem StartsWith.after {c : Node} {p : Parser α} (hf : ∀ a, (f a).StartsWith c) : (p >>= f).StartsWith c := by
  intro site i n j h
  obtain ⟨a, k, -, hn⟩ := exists_of_bind h
  exact hf a site k n j hn

theorem startsWith_node {c : Node} {cs : List Node} : (node k (c :: cs)).StartsWith c := by
  intro site i n j h
  cases h
  rfl

theorem Begins.opening {f : Node → Parser Node} [hp : p.Steady] (hBegins : p.Begins)
    (hf : ∀ i (r : Stretch i i Node), (f r.val).Reads i r.stop) (hStart : ∀ c, (f c).StartsWith c) :
    (p >>= f).Begins := by
  intro site hSite i n j h
  obtain ⟨c, k, hc, hn⟩ := exists_of_bind h
  obtain ⟨hLe, hLies⟩ := (hp.reads i).reads site hSite c k hc
  have hStop := ((hf i ⟨c, k, hLe, hLies⟩).reads site hSite n j hn).1
  rw [hStart c site k n j hn]
  exact Nat.lt_of_lt_of_le (hBegins site hSite i c k hc) hStop

theorem begins_mark {text : String} (hText : 0 < text.utf8ByteSize) : (mark text).Begins := by
  intro site _ i n j h
  cases (Option.ite_none_right_eq_some.mp h).2
  exact Nat.lt_add_of_pos_right hText

end Begins

section Commas

variable {item : Parser Node} [∀ j, item.Reads j j]

instance : (commaSeparated item).Steady := ⟨fun i => by unfold commaSeparated; infer_instance⟩
instance : (commaGaps item).Steady := ⟨fun i => by unfold commaGaps; infer_instance⟩
instance : (commaTrailed item).Steady := ⟨fun i => by unfold commaTrailed; infer_instance⟩

end Commas

end Parser

end ModuleAtlas
