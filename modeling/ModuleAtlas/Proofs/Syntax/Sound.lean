import ModuleAtlas.Syntax.Parser
import ModuleAtlas.Proofs.Syntax.Nodes
import ModuleAtlas.Proofs.Syntax.Quote

/-!
# Sound trees and sound parsers

In a sound tree a name is never a quoted text, functions and classes are named by names, and
what an import specifier speaks of is a name or a quoted text. A parser is sound if all nodes
it gives are. Soundness of a composed parser is found by instance search along its text, so
that a rule of the grammar has to be looked at only where it gives or names something.
-/

namespace ModuleAtlas

set_option autoImplicit false

namespace Kind

/-- Functions and classes, which may have a name of their own. -/
def isNamed : Kind → Bool
  | .functionDeclaration | .generatorFunctionDeclaration | .functionExpression | .generatorFunction
  | .classDeclaration | .abstractClassDeclaration | .classExpression => true
  | _ => false

@[reducible]
def isFree : Kind → Bool
  | .identifier | .typeIdentifier | .propertyIdentifier | .shorthandPropertyIdentifier
  | .shorthandPropertyIdentifierPattern
  | .functionDeclaration | .generatorFunctionDeclaration | .functionExpression | .generatorFunction
  | .classDeclaration | .abstractClassDeclaration | .classExpression | .importSpecifier => false
  | _ => true

theorem not_isNamed_of_isName {k : Kind} : k.isName = true → k.isNamed = false ∧ k ≠ .importSpecifier := by
  cases k <;> decide

theorem isFree_eq (k : Kind) : k.isFree = (!k.isName && !k.isNamed && k != .importSpecifier) := by
  cases k <;> rfl

class IsTrue (b : Bool) : Prop where
  eq : b = true

instance : IsTrue true := ⟨rfl⟩

class Free (k : Kind) : Prop where
  isFree : k.isFree = true

instance {k : Kind} [h : IsTrue k.isFree] : k.Free := ⟨h.eq⟩

instance {c : Prop} [Decidable c] {k l : Kind} [k.Free] [l.Free] : Free (if c then k else l) := by
  split <;> assumption

end Kind

namespace Node

structure Fits (n : Node) : Prop where
  bare : n.isName = true → ¬ Quoted n.text
  named : n.kind.isNamed = true → ∀ c ∈ n.children, c.role = some .name → c.isName = true
  imported : n.kind = .importSpecifier → ∀ c ∈ n.children,
    c.role = some .name ∨ c.role = some .alias → c.isName = true ∨ Quoted c.text

theorem Fits.of_free {n : Node} (h : n.kind.isFree = true) : n.Fits := by
  simp only [Kind.isFree_eq, Bool.and_eq_true, Bool.not_eq_true', bne_iff_ne] at h
  obtain ⟨⟨hName, hNamed⟩, hImport⟩ := h
  refine ⟨?_, ?_, fun hKind => absurd hKind hImport⟩
  · simp [isName, hName]
  · simp [hNamed]

/-- Every node of the tree fits. -/
class Sound (n : Node) : Prop where
  fits : ∀ m ∈ n.nodes, m.Fits

theorem sound_iff {n : Node} : n.Sound ↔ n.Fits ∧ ∀ c ∈ n.children, c.Sound := by
  constructor
  · intro h
    refine ⟨h.fits n n.self_mem_nodes, fun c hc => ⟨fun m hm => ?_⟩⟩
    exact h.fits m (mem_nodes_of_child hc hm)
  · rintro ⟨hFits, hChildren⟩
    refine ⟨fun m hm => ?_⟩
    rw [nodes_eq, List.mem_cons, List.mem_flatMap] at hm
    rcases hm with rfl | ⟨c, hc, hm⟩
    · exact hFits
    · exact (hChildren c hc).fits m hm

theorem sound_leaf {k : Kind} {r : Option Role} {i : Nat} {t : String}
    (h : k.isName = true → ¬ Quoted t) : (leaf k r i t).Sound := by
  refine sound_iff.mpr ⟨⟨h, ?_, ?_⟩, ?_⟩ <;> simp [children]

/-- A text that is not quoted may be a name. -/
theorem sound_asKind_of_isName {n : Node} {k : Kind} [h : n.Sound] (hk : k.isName = true)
    (hBare : ¬ Quoted n.text) : (n.asKind k).Sound := by
  have hChildren := (sound_iff.mp h).2
  obtain ⟨hNamed, hImport⟩ := Kind.not_isNamed_of_isName hk
  cases n with
  | leaf _ r s t => exact sound_leaf fun _ => hBare
  | branch _ r s e cs =>
    refine sound_iff.mpr ⟨⟨fun _ => hBare, fun hKind => ?_, fun hKind => absurd hKind hImport⟩, hChildren⟩
    exact absurd hKind (by simp [asKind, kind, hNamed])

class AllSound (ns : List Node) : Prop where
  sound : ∀ n ∈ ns, n.Sound

instance : AllSound [] := ⟨fun _ hn => nomatch hn⟩

section

variable {n m : Node} {ns ms : List Node}

instance [hn : n.Sound] [hns : AllSound ns] : AllSound (n :: ns) :=
  ⟨List.forall_mem_cons.mpr ⟨hn, hns.sound⟩⟩

instance [hns : AllSound ns] [hms : AllSound ms] : AllSound (ns ++ ms) :=
  ⟨List.forall_mem_append.mpr ⟨hns.sound, hms.sound⟩⟩

instance {r : Role} [h : n.Sound] : (n.asRole r).Sound := by
  obtain ⟨⟨hBare, hNamed, hImported⟩, hChildren⟩ := sound_iff.mp h
  cases n with
  | leaf k r s t => exact sound_iff.mpr ⟨⟨hBare, hNamed, hImported⟩, hChildren⟩
  | branch k r s e cs => exact sound_iff.mpr ⟨⟨hBare, hNamed, hImported⟩, hChildren⟩

instance {k : Kind} [h : n.Sound] [hk : k.Free] : (n.asKind k).Sound := by
  have hChildren := (sound_iff.mp h).2
  cases n with
  | leaf _ r s t => exact sound_iff.mpr ⟨.of_free hk.isFree, hChildren⟩
  | branch _ r s e cs => exact sound_iff.mpr ⟨.of_free hk.isFree, hChildren⟩

end

@[simp]
theorem role_asRole (n : Node) (r : Role) : (n.asRole r).role = some r := by
  cases n <;> rfl

@[simp]
theorem isName_asRole (n : Node) (r : Role) : (n.asRole r).isName = n.isName := by
  cases n <;> rfl

@[simp]
theorem text_asRole (n : Node) (r : Role) : (n.asRole r).text = n.text := by
  cases n <;> rfl

/-- A sound node that is not the name of its parent. -/
class Part (n : Node) : Prop where
  sound : n.Sound
  role : n.role ≠ some .name

end Node

open Node

/-- What is to be kept of a thing that was read. A node by itself plays no part, and among the
nodes read for a parent there is not yet its name. -/
class Reading (α : Type) where
  Good : α → Prop

instance : Reading Node := ⟨fun n => n.Sound ∧ n.role = none⟩
instance : Reading (List Node) := ⟨fun ns => ∀ n ∈ ns, n.Sound ∧ n.role ≠ some .name⟩
instance {α β : Type} [Reading α] [Reading β] : Reading (α × β) :=
  ⟨fun r => Reading.Good r.1 ∧ Reading.Good r.2⟩
instance : Reading Unit := ⟨fun _ => True⟩
instance : Reading Bool := ⟨fun _ => True⟩
instance : Reading Nat := ⟨fun _ => True⟩
instance : Reading UInt8 := ⟨fun _ => True⟩
instance : Reading String := ⟨fun _ => True⟩
instance : Reading Source := ⟨fun _ => True⟩

class WellMade {α : Type} [Reading α] (a : α) : Prop where
  good : Reading.Good a

instance {α : Type} [Reading α] (a : {a : α // WellMade a}) : WellMade a.val := a.property
instance {α β : Type} [Reading α] [Reading β] {a : α} {b : β} [ha : WellMade a] [hb : WellMade b] :
    WellMade (a, b) :=
  ⟨ha.good, hb.good⟩

section WellMade

variable {n m : Node} {ns ms : List Node} {k : Kind}

instance [h : WellMade n] : n.Sound := h.good.1
instance [h : WellMade n] : n.Part := ⟨h.good.1, by simp [h.good.2]⟩
instance [h : WellMade ns] : AllSound ns := ⟨fun n hn => (h.good n hn).1⟩

instance [n.Sound] : (n.asRole .value).Part := ⟨inferInstance, by simp⟩
instance [n.Sound] : (n.asRole .alias).Part := ⟨inferInstance, by simp⟩
instance [n.Sound] : (n.asRole .source).Part := ⟨inferInstance, by simp⟩
instance [n.Sound] : (n.asRole .declaration).Part := ⟨inferInstance, by simp⟩

instance : WellMade ([] : List Node) := ⟨fun _ hn => nomatch hn⟩
instance [hn : n.Part] [hns : WellMade ns] : WellMade (n :: ns) :=
  ⟨List.forall_mem_cons.mpr ⟨⟨hn.sound, hn.role⟩, hns.good⟩⟩
instance [hns : WellMade ns] [hms : WellMade ms] : WellMade (ns ++ ms) :=
  ⟨List.forall_mem_append.mpr ⟨hns.good, hms.good⟩⟩

instance {c : Prop} [Decidable c] [WellMade n] [WellMade m] : WellMade (if c then n else m) := by
  split <;> assumption

theorem wellMade_asKind [hn : WellMade n] (h : (n.asKind k).Sound) : WellMade (n.asKind k) := by
  refine ⟨h, ?_⟩
  have hRole := hn.good.2
  cases n <;> exact hRole

instance [WellMade n] [k.Free] : WellMade (n.asKind k) := wellMade_asKind inferInstance

theorem wellMade_leaf {i : Nat} {t : String} (h : k.isName = true → ¬ Quoted t) :
    WellMade (leaf k none i t) :=
  ⟨sound_leaf h, rfl⟩

instance {i : Nat} {t : String} [hk : k.Free] : WellMade (leaf k none i t) :=
  ⟨sound_iff.mpr ⟨.of_free hk.isFree, by simp [children]⟩, rfl⟩

instance {i j : Nat} [hk : k.Free] [hns : AllSound ns] : WellMade (branch k none i j ns) :=
  ⟨sound_iff.mpr ⟨.of_free hk.isFree, hns.sound⟩, rfl⟩

end WellMade

/-- The text is that of a string, and the other rules give sound nodes. -/
structure Site.Sound (site : Site) : Prop where
  text : ∃ text, site.source = .ofString text
  parse : ∀ g i n j, site.parse g i = some (n, j) → WellMade n

namespace Parser

variable {α β γ : Type}

def Gives (P : α → Prop) (p : Parser α) : Prop :=
  ∀ site, Site.Sound site → ∀ i a j, p site i = some (a, j) → P a

class Sound [Reading α] (p : Parser α) : Prop where
  gives : p.Gives WellMade

theorem Gives.mono {P Q : α → Prop} {p : Parser α} (h : p.Gives P) (hPQ : ∀ a, P a → Q a) :
    p.Gives Q :=
  fun site hSite i a j ha => hPQ a (h site hSite i a j ha)

theorem Gives.and {P Q : α → Prop} {p : Parser α} (hP : p.Gives P) (hQ : p.Gives Q) :
    p.Gives fun a => P a ∧ Q a :=
  fun site hSite i a j ha => ⟨hP site hSite i a j ha, hQ site hSite i a j ha⟩

theorem Gives.bind {P : α → Prop} {Q : β → Prop} {p : Parser α} {f : α → Parser β} (hp : p.Gives P)
    (hf : ∀ a, P a → (f a).Gives Q) : (p >>= f).Gives Q := by
  intro site hSite i b j h
  have hBind : p.bind f site i = some (b, j) := h
  unfold Parser.bind at hBind
  split at hBind
  case h_1 a k ha => exact hf a (hp site hSite i a k ha) site hSite k b j hBind
  case h_2 => cases hBind

theorem Gives.after {Q : β → Prop} {p : Parser α} {f : α → Parser β} (hf : ∀ a, (f a).Gives Q) :
    (p >>= f).Gives Q :=
  Gives.bind (P := fun _ => True) (fun _ _ _ _ _ _ => trivial) fun a _ => hf a

theorem Gives.branch {P : α → Prop} {Q : β → Prop} {c : Prop} [Decidable c] {p q : Parser α}
    {f : α → Parser β} (hp : p.Gives P) (hq : q.Gives P) (hf : ∀ a, P a → (f a).Gives Q) :
    (if c then p >>= f else q >>= f).Gives Q := by
  split
  · exact hp.bind hf
  · exact hq.bind hf

theorem Gives.orElse {P : α → Prop} {p q : Parser α} (hp : p.Gives P) (hq : q.Gives P) :
    (p <|> q).Gives P := by
  intro site hSite i a j h
  have hElse : p.orElse (fun _ => q) site i = some (a, j) := h
  unfold Parser.orElse at hElse
  split at hElse
  case h_1 r hr => exact hp site hSite i a j (hr.trans hElse)
  case h_2 => exact hq site hSite i a j hElse

theorem gives_pure {P : α → Prop} {a : α} (h : P a) : (pure a : Parser α).Gives P := by
  intro site _ i b j hb
  cases hb
  exact h

theorem Gives.maybeAll {P : List Node → Prop} {p : Parser (List Node)} (hp : p.Gives P) (hNil : P []) :
    (maybeAll p).Gives P := by
  intro site hSite i ns j h
  unfold Parser.maybeAll at h
  split at h
  case h_1 r hr => exact hp site hSite i ns j (hr.trans h)
  case h_2 =>
    cases h
    exact hNil

theorem Gives.maybe {P : Node → Prop} {p : Parser Node} (hp : p.Gives P) :
    (maybe p).Gives fun ns => ∀ n ∈ ns, P n := by
  intro site hSite i ns j h
  unfold Parser.maybe at h
  split at h
  case h_1 n k hn =>
    cases h
    exact List.forall_mem_singleton.mpr (hp site hSite i n j hn)
  case h_2 =>
    cases h
    exact fun _ hn => nomatch hn

theorem Gives.grow {P : Node → Prop} {step : Node → Parser Node}
    (hStep : ∀ n, P n → (step n).Gives P) {n : Node} (hn : P n) : (grow step n).Gives P := by
  intro site hSite i m j h
  have hGo : ∀ fuel n i, P n → P (grow.go step site fuel n i).1 := by
    intro fuel
    induction fuel with
    | zero => exact fun n i hn => hn
    | succ fuel ih =>
      intro n i hn
      unfold grow.go
      split
      case h_1 m j hm =>
        split
        · exact ih m j (hStep n hn site hSite i m j hm)
        · exact hn
      case h_2 => exact hn
  have hResult := hGo (site.source.size + 1 - i) n i hn
  rwa [Option.some.inj h] at hResult

theorem gives_ensure (b : Bool) : (ensure b).Gives fun _ => b = true := by
  intro site _ i a j h
  exact (Option.ite_none_right_eq_some.mp h).1

theorem Sound.bind [Reading α] [Reading β] {p : Parser α} {f : α → Parser β} [hp : p.Sound]
    (hf : ∀ a, WellMade a → (f a).Sound) : (p >>= f).Sound :=
  ⟨hp.gives.bind fun a ha => (hf a ha).gives⟩

theorem Sound.ite [Reading α] {c : Prop} [Decidable c] {p q : Parser α} (hp : p.Sound) (hq : q.Sound) :
    (if c then p else q).Sound := by
  split <;> assumption

section Instances

variable [Reading α] [Reading β] [Reading γ]

instance {p : Parser α} {f : α → Parser β} [hp : p.Sound]
    [hf : ∀ a : {a : α // WellMade a}, (f a.val).Sound] : (p >>= f).Sound :=
  Sound.bind fun a ha => hf ⟨a, ha⟩

-- A pair is taken apart at once; a match on it would hide the rest from the search.
instance {p : Parser (α × β)} {f : α × β → Parser γ} [hp : p.Sound]
    [hf : ∀ (a : {a : α // WellMade a}) (b : {b : β // WellMade b}), (f (a.val, b.val)).Sound] :
    (p >>= f).Sound :=
  Sound.bind fun (a, b) h => hf ⟨a, ⟨h.good.1⟩⟩ ⟨b, ⟨h.good.2⟩⟩

instance {a : α} [h : WellMade a] : (pure a : Parser α).Sound := ⟨gives_pure h⟩

instance : (fail : Parser α).Sound := ⟨fun _ _ _ _ _ h => nomatch h⟩

instance {p q : Parser α} [hp : p.Sound] [hq : q.Sound] : (p <|> q).Sound := ⟨hp.gives.orElse hq.gives⟩

instance {c : Prop} [Decidable c] {p q : Parser α} [hp : p.Sound] [hq : q.Sound] :
    (if c then p else q).Sound :=
  .ite hp hq

instance {f : Dialect → Parser α} [hScript : (f .script).Sound] [hTyped : (f .typed).Sound]
    [hMarkup : (f .typedMarkup).Sound] : (dialect >>= f).Sound := by
  refine ⟨Gives.after fun d => ?_⟩
  cases d with
  | script => exact hScript.gives
  | typed => exact hTyped.gives
  | typedMarkup => exact hMarkup.gives

end Instances

instance (p : Parser Unit) : p.Sound := ⟨fun _ _ _ _ _ _ => ⟨trivial⟩⟩
instance (p : Parser Bool) : p.Sound := ⟨fun _ _ _ _ _ _ => ⟨trivial⟩⟩
instance (p : Parser Nat) : p.Sound := ⟨fun _ _ _ _ _ _ => ⟨trivial⟩⟩
instance (p : Parser UInt8) : p.Sound := ⟨fun _ _ _ _ _ _ => ⟨trivial⟩⟩
instance (p : Parser (UInt8 × UInt8)) : p.Sound := ⟨fun _ _ _ _ _ _ => ⟨trivial, trivial⟩⟩
instance (p : Parser String) : p.Sound := ⟨fun _ _ _ _ _ _ => ⟨trivial⟩⟩
instance (p : Parser Source) : p.Sound := ⟨fun _ _ _ _ _ _ => ⟨trivial⟩⟩

instance (g : Goal) : (goal g).Sound := ⟨fun _ hSite i n j h => hSite.parse g i n j h⟩

instance {p : Parser Node} [hp : p.Sound] : (maybe p).Sound := by
  refine ⟨hp.gives.maybe.mono fun ns hns => ⟨fun n hn => ?_⟩⟩
  have hMade := hns n hn
  exact ⟨inferInstance, Part.role⟩

instance {p : Parser (List Node)} [hp : p.Sound] : (maybeAll p).Sound := ⟨hp.gives.maybeAll inferInstance⟩

/-- What holds of all nodes of each round holds of all nodes of the run. -/
theorem forall_of_many {P : Node → Prop} {p : Parser (List Node)} {site : Site}
    (hp : ∀ i ns j, p site i = some (ns, j) → ∀ n ∈ ns, P n) {i j : Nat} {ns : List Node}
    (h : many p site i = some (ns, j)) : ∀ n ∈ ns, P n := by
  have hGo : ∀ fuel i (acc : Array Node), (∀ n ∈ acc.toList, P n) →
      ∀ n ∈ (many.go p site fuel i acc).1.toList, P n := by
    intro fuel
    induction fuel with
    | zero => exact fun i acc hAcc => hAcc
    | succ fuel ih =>
      intro i acc hAcc
      unfold many.go
      split
      case h_1 ms j hms =>
        split
        · apply ih
          rw [List.foldl_push_eq_append', Array.toList_append]
          exact List.forall_mem_append.mpr ⟨hAcc, hp i ms j hms⟩
        · exact hAcc
      case h_2 => exact hAcc
  cases h
  exact hGo _ i #[] nofun

instance {p : Parser (List Node)} [hp : p.Sound] : (many p).Sound :=
  ⟨fun site hSite _ _ _ h => ⟨forall_of_many (fun i ns j hns => (hp.gives site hSite i ns j hns).good) h⟩⟩

instance {step : Node → Parser Node} [hStep : ∀ n : {n : Node // WellMade n}, (step n.val).Sound]
    {n : Node} [hn : WellMade n] : (grow step n).Sound :=
  ⟨.grow (fun m hm => (hStep ⟨m, hm⟩).gives) hn⟩

section Leaves

theorem gives_mark (text : String) : (mark text).Gives fun n => ∃ i, n = leaf .symbol none i text := by
  intro site _ i n j h
  cases (Option.ite_none_right_eq_some.mp h).2
  exact ⟨_, rfl⟩

instance (text : String) : (mark text).Sound := by
  refine ⟨(gives_mark text).mono ?_⟩
  rintro _ ⟨i, rfl⟩
  infer_instance

instance : equals.Sound := by
  refine ⟨fun site _ i n j h => ?_⟩
  cases (Option.ite_none_right_eq_some.mp h).2
  infer_instance

theorem gives_keyword (text : String) :
    (keyword text).Gives fun n => ∃ i, n = leaf .symbol none i text := by
  intro site _ i n j h
  cases (Option.ite_none_right_eq_some.mp h).2
  exact ⟨_, rfl⟩

instance (text : String) : (keyword text).Sound := by
  refine ⟨(gives_keyword text).mono ?_⟩
  rintro _ ⟨i, rfl⟩
  infer_instance

/-- A leaf of a kind that is not quoted. -/
structure IsWord (k : Kind) (n : Node) : Prop where
  made : WellMade n
  kind : n.kind = k
  bare : ¬ Quoted n.text

theorem isWord_slice {s : Source} {k : Kind} {i : Nat} (h : i < Lexeme.wordEnd s i) :
    IsWord k (leaf k none i (s.slice i (Lexeme.wordEnd s i))) :=
  ⟨wellMade_leaf fun _ => Lexeme.not_quoted_word h, rfl, Lexeme.not_quoted_word h⟩

theorem gives_word (k : Kind) : (word k).Gives (IsWord k) := by
  intro site _ i n j h
  obtain ⟨hLt, h⟩ := Option.ite_none_right_eq_some.mp h
  cases h
  exact isWord_slice hLt

theorem gives_wordWhere (k : Kind) (ok : String → Bool) : (wordWhere k ok).Gives (IsWord k) := by
  intro site _ i n j h
  obtain ⟨hLt, h⟩ := Option.ite_none_right_eq_some.mp h
  obtain ⟨-, h⟩ := Option.ite_none_right_eq_some.mp h
  cases h
  exact isWord_slice hLt

instance (k : Kind) : (word k).Sound := ⟨(gives_word k).mono fun _ h => h.made⟩
instance (k : Kind) (ok : String → Bool) : (wordWhere k ok).Sound :=
  ⟨(gives_wordWhere k ok).mono fun _ h => h.made⟩
instance (texts : List String) : (keywordOf texts).Sound := inferInstanceAs (wordWhere _ _).Sound

theorem Gives.lexeme {P : Node → Prop} {k : Kind} {stop? : Source → Nat → Option Nat}
    (h : ∀ text i j, stop? (.ofString text) i = some j →
      P (leaf k none i ((Source.ofString text).slice i j))) : (lexeme k stop?).Gives P := by
  intro site hSite i n j hn
  obtain ⟨text, hText⟩ := hSite.text
  simp only [Parser.lexeme, hText] at hn
  split at hn
  case h_1 m hm =>
    cases hn
    exact h text _ j hm
  case h_2 => cases hn

instance {k : Kind} {stop? : Source → Nat → Option Nat} [k.Free] : (lexeme k stop?).Sound :=
  ⟨.lexeme fun _ _ _ _ => inferInstance⟩

end Leaves

theorem gives_node {k : Kind} {cs : List Node} :
    (node k cs).Gives fun n => ∃ i j, n = branch k none i j cs := by
  intro site _ i n j h
  unfold node at h
  split at h <;> cases h <;> exact ⟨_, _, rfl⟩

instance {k : Kind} {cs : List Node} [k.Free] [AllSound cs] : (node k cs).Sound := by
  refine ⟨gives_node.mono ?_⟩
  rintro _ ⟨i, j, rfl⟩
  infer_instance

section Named

variable {n : Node} {ns ms : List Node}

/-- The nodes that play the part of the name are names. -/
class NamedBy (ns : List Node) : Prop where
  isName : ∀ n ∈ ns, n.role = some .name → n.isName = true

instance [h : WellMade ns] : NamedBy ns := ⟨fun n hn hRole => absurd hRole (h.good n hn).2⟩
instance [hn : n.Part] [hns : NamedBy ns] : NamedBy (n :: ns) :=
  ⟨List.forall_mem_cons.mpr ⟨fun hRole => absurd hRole hn.role, hns.isName⟩⟩
instance [hns : NamedBy ns] [hms : NamedBy ms] : NamedBy (ns ++ ms) :=
  ⟨List.forall_mem_append.mpr ⟨hns.isName, hms.isName⟩⟩

class IsName (n : Node) : Prop where
  made : WellMade n
  isName : n.isName = true

instance [h : IsName n] : WellMade n := h.made
instance {r : Role} [h : IsName n] [hns : NamedBy ns] : NamedBy (n.asRole r :: ns) :=
  ⟨List.forall_mem_cons.mpr ⟨fun _ => by rw [isName_asRole, h.isName], hns.isName⟩⟩

theorem allSound_map {r : Role} (h : ∀ n ∈ ns, IsName n) : AllSound (ns.map (·.asRole r)) := by
  refine ⟨List.forall_mem_map.mpr fun n hn => ?_⟩
  have hName := h n hn
  infer_instance

theorem namedBy_map {r : Role} (h : ∀ n ∈ ns, IsName n) : NamedBy (ns.map (·.asRole r)) := by
  refine ⟨List.forall_mem_map.mpr fun n hn _ => ?_⟩
  rw [isName_asRole, (h n hn).isName]

theorem IsWord.isName {k : Kind} (h : IsWord k n) (hk : k.isName = true) : IsName n :=
  ⟨h.made, by rw [Node.isName, h.kind, hk]⟩

theorem gives_named {k : Kind} {cs : List Node} [hcs : AllSound cs] [hNames : NamedBy cs]
    (hk : k ≠ .importSpecifier) : (node k cs).Gives WellMade := by
  refine gives_node.mono ?_
  rintro _ ⟨i, j, rfl⟩
  refine ⟨sound_iff.mpr ⟨⟨fun _ => not_quoted_empty, fun _ => hNames.isName, ?_⟩, hcs.sound⟩, rfl⟩
  exact fun hKind => absurd hKind hk

end Named

theorem gives_semicolon (place : Semicolon.Place) :
    (semicolon place).Gives fun ns => ns = [] ∨ ∃ i, ns = [leaf .symbol none i ";"] := by
  intro site hSite i ns j h
  unfold semicolon at h
  split at h
  case h_1 =>
    cases h
    exact .inl rfl
  case h_2 =>
    split at h
    case h_1 n k hn =>
      cases h
      obtain ⟨l, rfl⟩ := gives_mark ";" site hSite i n j hn
      exact .inr ⟨l, rfl⟩
    case h_2 => cases h

instance (place : Semicolon.Place) : (semicolon place).Sound := by
  refine ⟨(gives_semicolon place).mono ?_⟩
  rintro _ (rfl | ⟨i, rfl⟩) <;> infer_instance

instance {item : Parser Node} [item.Sound] : (commaSeparated item).Sound := by
  unfold commaSeparated
  infer_instance

instance {item : Parser Node} [item.Sound] : (commaGaps item).Sound := by
  unfold commaGaps
  infer_instance

instance {item : Parser Node} [item.Sound] : (commaTrailed item).Sound := by
  unfold commaTrailed
  infer_instance

end Parser

end ModuleAtlas
