import ModuleAtlas.Proofs.Syntax.Formed

/-!
# The forms of an export statement

An export statement at the top of a file that names a source holds no declaration and no value; a
star that stands in it by itself stands there without names, and in a clause every specifier has a
name. Other statements are of other
kinds, so only the rule of the export statement has to be looked at closely; for the rest a search
along the text of the rules finds that they give nodes of other kinds.
-/

namespace ModuleAtlas

set_option autoImplicit false
set_option synthInstance.maxSize 32768

open Node ModuleAtlas.Parser

namespace Node

def IsStar (c : Node) : Prop := c.kind = .symbol ∧ c.text? = some "*"

/-- Does the node hold names that a statement exports? -/
def holdsNames (c : Node) : Bool := c.kind == .exportClause || c.kind == .namespaceExport

/-- The node plays no part, or that of the source. -/
def Loose (c : Node) : Prop := c.role = none ∨ c.role = some .source

/-- If the node is a clause, its specifiers have names. -/
def Titled (c : Node) : Prop :=
  c.kind = .exportClause → ∀ s ∈ c.children, s.kind = .exportSpecifier → ∃ t ∈ s.children, t.role = some .name

/-- What an export statement is made of: things of the file itself, or a star with its source, or
names with perhaps their source. -/
inductive ExportForm (cs : List Node) : Prop where
  | own (h : ∀ c ∈ cs, c.role ≠ some .source)
  | all (hLoose : ∀ c ∈ cs, c.Loose) (h : ∀ c ∈ cs, c.holdsNames = false)
  | names (hLoose : ∀ c ∈ cs, c.Loose) (h : ∀ c ∈ cs, ¬ c.IsStar ∧ c.Titled)

/-- The node is nothing exported. -/
structure Quiet (c : Node) : Prop where
  loose : c.Loose
  nameless : c.holdsNames = false
  starless : ¬ c.IsStar

/-- The node is nothing exported and no source. -/
structure Neutral (c : Node) : Prop extends c.Quiet where
  role : c.role = none

theorem titled_of_nameless {c : Node} (h : c.holdsNames = false) : c.Titled := by
  intro hKind
  simp [holdsNames, hKind] at h

theorem neutral_of_kind {c : Node} (hRole : c.role = none) (hNames : c.holdsNames = false)
    (hKind : c.kind ≠ .symbol) : c.Neutral :=
  ⟨⟨.inl hRole, hNames, fun h => hKind h.1⟩, hRole⟩

theorem neutral_symbol {i : Nat} {text : String} (h : text ≠ "*") : (leaf .symbol none i text).Neutral :=
  ⟨⟨.inl rfl, rfl, fun hStar => h (Option.some.inj hStar.2)⟩, rfl⟩

theorem IsComment.neutral {c : Node} (h : c.IsComment) : c.Neutral := by
  have hKind := h.kind
  apply neutral_of_kind h.role
  · cases hk : c.kind <;> simp_all [holdsNames, Kind.isComment]
  · intro hSymbol
    rw [hSymbol] at hKind
    cases hKind

namespace ExportForm

variable {cs ds before rest : List Node} {target : Node}

theorem of_target (hRole : target.role = none)
    (hTarget : target.holdsNames = false ∨ ¬ target.IsStar ∧ target.Titled)
    (hRest : ∀ c ∈ rest, c.Quiet) : ExportForm (target :: rest) := by
  have hLoose : ∀ c ∈ target :: rest, c.Loose :=
    List.forall_mem_cons.mpr ⟨.inl hRole, fun c hc => (hRest c hc).loose⟩
  rcases hTarget with hTarget | hTarget
  · exact .all hLoose (List.forall_mem_cons.mpr ⟨hTarget, fun c hc => (hRest c hc).nameless⟩)
  · exact .names hLoose (List.forall_mem_cons.mpr ⟨hTarget, fun c hc =>
      ⟨(hRest c hc).starless, titled_of_nameless (hRest c hc).nameless⟩⟩)

theorem own_append (hFront : ∀ c ∈ before, c.role ≠ some .source) (hRest : ∀ c ∈ rest, c.Neutral) :
    ExportForm (before ++ rest) := by
  apply ExportForm.own
  refine List.forall_mem_append.mpr ⟨hFront, fun c hc => ?_⟩
  simp [(hRest c hc).role]

/-- Neutral nodes may come in, and the others may change below. -/
theorem change (h : ExportForm cs) (hds : ∀ d ∈ ds, d.Neutral ∨
    ∃ c ∈ cs, d.role = c.role ∧ d.kind = c.kind ∧ d.text? = c.text? ∧ (c.Titled → d.Titled)) :
    ExportForm ds := by
  have hLoose (hcs : ∀ c ∈ cs, c.Loose) : ∀ d ∈ ds, d.Loose := by
    intro d hd
    obtain hd | ⟨c, hc, hRole, -⟩ := hds d hd
    · exact hd.loose
    · rw [Loose, hRole]
      exact hcs c hc
  cases h with
  | own h =>
    apply ExportForm.own
    intro d hd
    obtain hd | ⟨c, hc, hRole, -⟩ := hds d hd
    · simp [hd.role]
    · rw [hRole]
      exact h c hc
  | all hcs h =>
    apply ExportForm.all (hLoose hcs)
    intro d hd
    obtain hd | ⟨c, hc, -, hKind, -⟩ := hds d hd
    · exact hd.nameless
    · rw [holdsNames, hKind]
      exact h c hc
  | names hcs h =>
    apply ExportForm.names (hLoose hcs)
    intro d hd
    obtain hd | ⟨c, hc, -, hKind, hText, hTitled⟩ := hds d hd
    · exact ⟨hd.starless, titled_of_nameless hd.nameless⟩
    · rw [IsStar, hKind, hText]
      exact (h c hc).imp_right hTitled

theorem neutral_append (h : ExportForm cs) (hBefore : ∀ c ∈ before, c.Neutral) :
    ExportForm (before ++ cs) := by
  apply h.change
  intro d hd
  rcases List.mem_append.mp hd with hd | hd
  · exact .inl (hBefore d hd)
  · exact .inr ⟨d, hd, rfl, rfl, rfl, id⟩

theorem of_source {n source : Node} (h : ExportForm n.children) (hSource : n.child? .source = some source) :
    (∀ c ∈ n.children, c.Loose) ∧
      ((∀ c ∈ n.children, c.holdsNames = false) ∨ ∀ c ∈ n.children, ¬ c.IsStar ∧ c.Titled) := by
  cases h with
  | own h =>
    have hRole : source.role = some .source := by simpa using List.find?_some hSource
    exact absurd hRole (h source (List.mem_of_find?_eq_some hSource))
  | all hLoose h => exact ⟨hLoose, .inl h⟩
  | names hLoose h => exact ⟨hLoose, .inr h⟩

end ExportForm

end Node

namespace Parser

theorem gives_lexeme (k : Kind) (stop? : Source → Nat → Option Nat) :
    (lexeme k stop?).Gives fun n => ∃ i text, n = leaf k none i text :=
  .lexeme fun _ _ _ _ => ⟨_, _, rfl⟩

theorem gives_ending (place : Semicolon.Place) : (semicolon place).Gives fun ns => ∀ n ∈ ns, n.Neutral := by
  refine (gives_semicolon place).mono ?_
  rintro _ (rfl | ⟨i, rfl⟩)
  · simp
  · exact List.forall_mem_singleton.mpr (neutral_symbol (by decide))

theorem Gives.commaTrailed {P : Node → Prop} {item : Parser Node} (hItem : item.Gives P)
    (hComma : ∀ i, P (leaf .symbol none i ",")) : (commaTrailed item).Gives fun ns => ∀ n ∈ ns, P n := by
  have hMark : (mark ",").Gives P := by
    refine (gives_mark ",").mono ?_
    rintro _ ⟨i, rfl⟩
    exact hComma i
  have hRound := hMark.bind fun comma h => hItem.bind fun next hNext =>
    gives_pure (P := fun ns => ∀ n ∈ ns, P n) (a := [comma, next]) (by simpa using ⟨h, hNext⟩)
  have hRest : Gives (fun ns => ∀ n ∈ ns, P n) (many do
      let comma ← mark ","
      let next ← item
      return [comma, next]) :=
    fun site hSite i ns j h => forall_of_many (hRound site hSite) h
  have hItems : (commaSeparated item).Gives fun ns => ∀ n ∈ ns, P n :=
    hItem.bind fun first hFirst => hRest.bind fun rest hRest =>
      gives_pure (List.forall_mem_cons.mpr ⟨hFirst, hRest⟩)
  exact hItems.bind fun items hItems => hMark.maybe.bind fun last hLast =>
    gives_pure (List.forall_mem_append.mpr ⟨hItems, hLast⟩)

end Parser

namespace Grammar

theorem gives_decorators : decorators.Gives fun ns => ∀ n ∈ ns, n.Neutral := by
  have hDecorator : decorator.Gives Neutral := by
    refine .after fun sign => .after fun value => gives_node.mono ?_
    rintro _ ⟨i, j, rfl⟩
    exact neutral_of_kind rfl rfl nofun
  have hRound := hDecorator.bind fun n hn =>
    gives_pure (P := fun ns : List Node => ∀ n ∈ ns, n.Neutral) (List.forall_mem_singleton.mpr hn)
  intro site hSite i ns j h
  exact forall_of_many (hRound site hSite) h

theorem gives_fromClause : fromClause.Gives fun ns => ∀ n ∈ ns, n.Quiet := by
  refine (gives_keyword "from").bind ?_
  rintro _ ⟨i, rfl⟩
  refine (gives_lexeme .string Lexeme.stringEnd?).bind ?_
  rintro _ ⟨j, text, rfl⟩
  have hSource : ((leaf .string none j text).asRole .source).Quiet := ⟨.inr rfl, rfl, nofun⟩
  exact gives_pure (by simpa using ⟨(neutral_symbol (by decide)).toQuiet, hSource⟩)

theorem gives_starExport : starExport.Gives ExportForm := by
  refine (gives_mark "*").bind ?_
  rintro _ ⟨i, rfl⟩
  have hTarget : Gives (fun n => n.role = none ∧ (n.holdsNames = false ∨ ¬ n.IsStar ∧ n.Titled))
      ((do
        let as ← keyword "as"
        let name ← clauseName
        node .namespaceExport [leaf .symbol none i "*", as, name]) <|> pure (leaf .symbol none i "*")) := by
    refine .orElse (.after fun as => .after fun name => gives_node.mono ?_) (gives_pure ⟨rfl, .inl rfl⟩)
    rintro _ ⟨j, k, rfl⟩
    exact ⟨rfl, .inr ⟨nofun, nofun⟩⟩
  refine hTarget.bind fun target hTarget => gives_fromClause.bind fun source hSource =>
    (gives_ending _).bind fun ending hEnding => gives_pure ?_
  apply ExportForm.of_target hTarget.1 hTarget.2
  exact List.forall_mem_append.mpr ⟨hSource, fun c hc => (hEnding c hc).toQuiet⟩

theorem gives_exportSpecifier : exportSpecifier.Gives fun n => ∃ t ∈ n.children, t.role = some .name := by
  have hRest : ∀ only, Gives (fun n => ∃ t ∈ n.children, t.role = some .name) (do
      let name ← clauseName
      let rename ← maybeAll (newName clauseName)
      node .exportSpecifier (only ++ [name.asRole .name] ++ rename)) := by
    refine fun only => .after fun name => .after fun rename => gives_node.mono ?_
    rintro _ ⟨i, j, rfl⟩
    exact ⟨name.asRole .name, by simp [children], role_asRole name .name⟩
  refine .after fun isTyped => ?_
  split
  · exact .after hRest
  · exact .after hRest

theorem gives_exportClause : exportClause.Gives fun n => n.role = none ∧ ¬ n.IsStar ∧ n.Titled := by
  have hItems := (gives_exportSpecifier.mono fun n h (_ : n.kind = .exportSpecifier) => h).commaTrailed nofun
  refine (gives_mark _).bind ?_
  rintro _ ⟨i, rfl⟩
  refine (hItems.maybeAll (by simp)).bind fun items hItems => (gives_mark _).bind ?_
  rintro _ ⟨j, rfl⟩
  refine gives_node.mono ?_
  rintro _ ⟨k, l, rfl⟩
  refine ⟨rfl, nofun, fun _ => ?_⟩
  refine List.forall_mem_append.mpr ⟨List.forall_mem_cons.mpr ⟨nofun, hItems⟩, ?_⟩
  exact List.forall_mem_singleton.mpr nofun

theorem gives_clauseExport : clauseExport.Gives ExportForm := by
  have hOnly : Gives (fun ns => ∀ n ∈ ns, n.Neutral) (maybe (keyword "type")) := by
    refine ((gives_keyword "type").mono ?_).maybe
    rintro _ ⟨i, rfl⟩
    exact neutral_symbol (by decide)
  refine .after fun isTyped => .branch hOnly (gives_pure (by simp)) fun only hOnly => ?_
  refine gives_exportClause.bind fun clause hClause => (gives_fromClause.maybeAll (by simp)).bind fun source hSource =>
    (gives_ending _).bind fun ending hEnding => gives_pure ?_
  rw [List.append_assoc]
  apply ExportForm.neutral_append _ hOnly
  apply ExportForm.of_target hClause.1 (.inr hClause.2)
  exact List.forall_mem_append.mpr ⟨hSource, fun c hc => (hEnding c hc).toQuiet⟩

theorem gives_defaultExport : defaultExport.Gives ExportForm := by
  refine Sound.gives.bind fun word hWord => .orElse ?_ ?_
  · refine .after fun declared => gives_pure (.own ?_)
    simp [hWord.good.2]
  · refine .after fun value => (gives_ending _).bind fun ending hEnding => gives_pure (.own_append ?_ hEnding)
    simp [hWord.good.2]

theorem gives_typedExport : typedExport.Gives ExportForm := by
  refine .after fun isTyped => .after fun _ => .orElse ?_ ?_
  · refine Sound.gives.bind fun sign hSign => Sound.gives.bind fun value hValue =>
      (gives_ending _).bind fun ending hEnding => gives_pure (.own_append ?_ hEnding)
    simp [hSign.good.2, hValue.good.2]
  · refine Sound.gives.bind fun as hAs => Sound.gives.bind fun space hSpace => Sound.gives.bind fun name hName =>
      (gives_ending _).bind fun ending hEnding => gives_pure (.own_append ?_ hEnding)
    simp [hAs.good.2, hSpace.good.2, hName.good.2]

theorem gives_exportStatement : exportStatement.Gives fun n => ExportForm n.children := by
  refine gives_decorators.bind fun marks hMarks => (gives_keyword "export").bind ?_
  rintro _ ⟨i, rfl⟩
  have hDeclared : Gives ExportForm (do
      let declared ← declaration afterClause
      return [declared.asRole .declaration]) :=
    .after fun declared => gives_pure (.own (by simp))
  refine Gives.bind (gives_starExport.orElse (gives_clauseExport.orElse (gives_defaultExport.orElse
    (gives_typedExport.orElse hDeclared)))) fun body hBody => gives_node.mono ?_
  rintro _ ⟨j, k, rfl⟩
  apply hBody.neutral_append
  exact List.forall_mem_append.mpr ⟨hMarks, List.forall_mem_singleton.mpr (neutral_symbol (by decide))⟩

end Grammar

namespace Kind

@[reducible]
def isOther : Kind → Bool
  | .exportStatement => false
  | _ => true

class Other (k : Kind) : Prop where
  isOther : k.isOther = true

instance {k : Kind} [h : IsTrue k.isOther] : k.Other := ⟨h.eq⟩

instance {c : Prop} [Decidable c] {k l : Kind} [k.Other] [l.Other] : Other (if c then k else l) := by
  split <;> assumption

end Kind

/-- If the node is an export statement, it has one of the forms. -/
def Node.Shaped (n : Node) : Prop := n.kind = .exportStatement → ExportForm n.children

/-- The rules that statements are made of give what they are asked for. -/
class Site.Settled (site : Site) : Prop where
  sound : site.Sound
  block : ∀ place i n j, site.parse (.block place) i = some (n, j) → n.kind = .statementBlock

namespace Parser

class Shaped (site : Site) (p : Parser Node) : Prop where
  gives : ∀ i n j, p site i = some (n, j) → n.Shaped

section

variable {α : Type} {site : Site} {p q : Parser Node}

theorem Shaped.bind {p : Parser α} {f : α → Parser Node} (hf : ∀ a, Shaped site (f a)) :
    Shaped site (p >>= f) := by
  refine ⟨fun i n j h => ?_⟩
  obtain ⟨a, k, -, h⟩ := exists_of_bind h
  exact (hf a).gives k n j h

theorem Shaped.ite {c : Prop} [Decidable c] (hp : Shaped site p) (hq : Shaped site q) :
    Shaped site (if c then p else q) := by
  split <;> assumption

theorem shaped_of_kind {k : Kind} [h : k.Other] (hp : ∀ i n j, p site i = some (n, j) → n.kind = k) :
    Shaped site p := by
  refine ⟨fun i n j hn hKind => ?_⟩
  cases (hp i n j hn).symm.trans hKind
  cases h.isOther

instance {p : Parser α} {f : α → Parser Node} [hf : ∀ a, Shaped site (f a)] : Shaped site (p >>= f) :=
  .bind hf

instance [hp : Shaped site p] [hq : Shaped site q] : Shaped site (p <|> q) :=
  ⟨fun i n j h => (cases_of_orElse h).elim (hp.gives i n j) (hq.gives i n j)⟩

instance {c : Prop} [Decidable c] [hp : Shaped site p] [hq : Shaped site q] :
    Shaped site (if c then p else q) :=
  .ite hp hq

instance : Shaped site fail := ⟨fun _ _ _ h => nomatch h⟩

instance {k : Kind} {n : Node} [k.Other] : Shaped site (pure (n.asKind k)) := by
  apply shaped_of_kind (k := k)
  intro i m j h
  cases h
  cases n <;> rfl

instance {k : Kind} {cs : List Node} [k.Other] : Shaped site (node k cs) := by
  apply shaped_of_kind (k := k)
  intro i n j h
  unfold node at h
  split at h <;> cases h <;> rfl

instance {place : Semicolon.Place} [hSite : site.Settled] : Shaped site (goal (.block place)) :=
  shaped_of_kind (hSite.block place)

end

end Parser

namespace Grammar

section

variable {site : Site}

instance [hSite : site.Settled] : Shaped site exportStatement :=
  ⟨fun i n j h _ => gives_exportStatement site hSite.sound i n j h⟩

instance : Shaped site expressionStatement := by
  unfold expressionStatement
  infer_instance

instance : Shaped site labeledStatement := by
  unfold labeledStatement
  infer_instance

instance : Shaped site variableDeclaration := by
  unfold variableDeclaration
  infer_instance

instance : Shaped site lexicalDeclaration := by
  unfold lexicalDeclaration
  infer_instance

instance : Shaped site enumDeclaration := by
  unfold enumDeclaration
  infer_instance

instance : Shaped site moduleDeclaration := by
  unfold moduleDeclaration
  infer_instance

instance : Shaped site importAlias := by
  unfold importAlias
  infer_instance

instance (place : Semicolon.Place) : Shaped site (classDeclaration place) := by
  unfold classDeclaration
  infer_instance

instance (place : Semicolon.Place) : Shaped site (plainDeclaration place) := by
  unfold plainDeclaration functionDeclaration typeAlias interfaceDeclaration
  refine .bind fun w => ?_
  iterate 5 refine .ite inferInstance ?_
  refine .bind fun isTyped => .ite ?_ inferInstance
  split <;> infer_instance

instance (place : Semicolon.Place) : Shaped site (declaration place) := by
  unfold declaration ambientDeclaration
  infer_instance

instance (words : List String) : Shaped site (namedOrExpression words) := by
  unfold namedOrExpression
  infer_instance

instance : Shaped site nameStatement := by
  unfold nameStatement
  infer_instance

instance {p : Parser Node} [Shaped site p] : Shaped site (softStatement p) := by
  unfold softStatement
  infer_instance

instance {text : String} {k : Kind} [k.Other] : Shaped site (jumpStatement text k) := by
  unfold jumpStatement
  infer_instance

instance [site.Settled] (w : String) : Shaped site (wordStatement w) := by
  unfold wordStatement ifStatement forInStatement forStatement whileStatement doStatement switchStatement
    tryStatement withStatement returnStatement throwStatement debuggerStatement exportOrExpression
    importOrExpression importStatement
  split
  case h_21 =>
    unfold wordStatement.wordOrExpression
    refine .bind fun isTyped => .ite ?_ inferInstance
    split <;> infer_instance
  all_goals infer_instance

instance [site.Settled] : Shaped site statementRule := by
  unfold statementRule blockStatement emptyStatement
  infer_instance

end

end Grammar

namespace Syntax

open Grammar

variable {text : String} {d : Dialect} {depth : Nat}

theorem kind_of_blockRule {site : Site} {place : Semicolon.Place} {i j : Nat} {n : Node}
    (h : blockRule place site i = some (n, j)) : n.kind = .statementBlock := by
  obtain ⟨opening, _, -, h⟩ := exists_of_bind h
  obtain ⟨body, _, -, h⟩ := exists_of_bind h
  obtain ⟨_, _, -, h⟩ := exists_of_bind h
  obtain ⟨closing, _, -, h⟩ := exists_of_bind h
  obtain ⟨_, _, -, h⟩ := exists_of_bind h
  cases h
  rfl

instance settled_answer (text : String) (d : Dialect) (depth : Nat) :
    Site.Settled ⟨.ofString text, d, answer (.ofString text) d depth⟩ where
  sound := ⟨⟨text, rfl⟩, wellMade_answer text d depth⟩
  block place i n j h := by
    cases depth with
    | zero => cases h
    | succ depth => exact kind_of_blockRule h

theorem shaped_statement {i j : Nat} {n : Node}
    (h : answer (.ofString text) d depth .statement i = some (n, j)) : n.Shaped := by
  cases depth with
  | zero => cases h
  | succ depth => exact Shaped.gives i n j (p := statementRule) h

theorem shaped_of_programRule {n c : Node} {i j : Nat}
    (h : programRule ⟨.ofString text, d, answer (.ofString text) d depth⟩ i = some (n, j))
    (hc : c ∈ n.children) : c.Shaped := by
  obtain ⟨first, _, hFirst, h⟩ := exists_of_bind h
  obtain ⟨body, _, hBody, h⟩ := exists_of_bind h
  obtain ⟨_, _, -, h⟩ := exists_of_bind h
  obtain ⟨done, _, -, h⟩ := exists_of_bind h
  obtain ⟨_, _, -, h⟩ := exists_of_bind h
  obtain ⟨stop, _, -, h⟩ := exists_of_bind h
  cases h
  rcases List.mem_append.mp hc with hc | hc
  · have hBang : ∀ m ∈ first, m.kind = .hashBangLine := by
      refine Gives.maybe (Gives.lexeme fun _ _ _ _ => rfl) _ Site.Settled.sound i first _ hFirst
    intro hKind
    rw [hBang c hc] at hKind
    cases hKind
  · refine forall_of_many (fun k ns l hns => ?_) hBody c hc
    obtain ⟨m, _, hm, hns⟩ := exists_of_bind hns
    cases hns
    exact List.forall_mem_singleton.mpr (shaped_statement hm)

theorem titled_place (s : Source) {n : Node} (h : n.Titled) : (Comment.place s n).Titled := by
  intro hKind c hc hSpecifier
  rw [Comment.kind_place] at hKind
  obtain hComment | ⟨m, hm, rfl⟩ := Comment.mem_children_place hc
  · exact absurd hComment.kind (by rw [hSpecifier]; decide)
  · rw [Comment.kind_place] at hSpecifier
    obtain ⟨t, ht, hRole⟩ := h hKind m hm hSpecifier
    exact ⟨Comment.place s t, Comment.place_mem_children ht, by rw [Comment.role_place, hRole]⟩

theorem shaped_place (s : Source) {n : Node} (h : n.Shaped) : (Comment.place s n).Shaped := by
  intro hKind
  rw [Comment.kind_place] at hKind
  apply (h hKind).change
  intro c hc
  obtain hComment | ⟨m, hm, rfl⟩ := Comment.mem_children_place hc
  · exact .inl hComment.neutral
  · exact .inr ⟨m, hm, Comment.role_place s m, Comment.kind_place s m, Comment.text?_place s m,
      titled_place s⟩

/-- Every export statement at the top of a text that is read has one of the forms. -/
theorem exportForm_of_parse {root n : Node} (h : parse d (.ofString text) = some root)
    (hn : n ∈ root.children) (hKind : n.kind = .exportStatement) : ExportForm n.children := by
  unfold parse at h
  split at h
  case h_1 m j hm =>
    cases h
    obtain hComment | ⟨c, hc, rfl⟩ := Comment.mem_children_place hn
    · exact absurd hComment.kind (by rw [hKind]; decide)
    · exact shaped_place _ (shaped_of_programRule hm hc) hKind
  case h_2 => cases h

end Syntax

end ModuleAtlas
