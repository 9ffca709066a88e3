import ModuleAtlas.Proofs.File.Exports
import ModuleAtlas.Proofs.Program.Unused
import ModuleAtlas.Proofs.Text.Legible
import Mathlib.Data.List.Duplicate
import Mathlib.Data.List.TakeWhile

/-!
# Names declared more than once

Entities of one name stand apart, so that each has the name of the others written outside itself.
None of them counts as unused, whatever is known of other files. Instead there is one diagnostic
for each such name, with the lines of all its declarations.
-/

namespace ModuleAtlas

set_option autoImplicit false

namespace Diagnostic

section Messages

/-- The last quote of the message is the one after the name. -/
theorem message_duplicateDeclaration (file : Path) (name : String) (lines : List Nat) :
    ∃ rest, '\'' ∉ rest ∧
      (duplicateDeclaration file name lines).message.toList = '\'' :: name.toList ++ '\'' :: rest := by
  have hText : ∀ text : String, toString text = text := fun _ => rfl
  have hCount := Text.notMem_toString (c := '\'') rfl lines.length
  have hLines : '\'' ∉ (", ".intercalate (lines.map toString)).toList := by
    rw [String.toList_intercalate, List.map_map]
    refine Text.notMem_intercalate (by decide) fun t ht => ?_
    obtain ⟨line, -, rfl⟩ := List.mem_map.mp ht
    exact Text.notMem_toString rfl line
  refine ⟨" is declared ".toList ++ (toString lines.length).toList ++ " times (lines ".toList ++
    (", ".intercalate (lines.map toString)).toList ++
    "); usage is not attributed to any single declaration".toList, ?_, ?_⟩
  · simp only [List.mem_append, not_or]
    exact ⟨⟨⟨⟨by decide, hCount⟩, by decide⟩, hLines⟩, by decide⟩
  · simp [duplicateDeclaration, hText]

theorem dropWhile_reverse_of_quote {text rest : List Char} (h : '\'' ∉ rest) :
    (text ++ '\'' :: rest).reverse.dropWhile (· != '\'') = '\'' :: text.reverse := by
  rw [List.reverse_append, List.reverse_cons, List.append_assoc, List.dropWhile_append_of_pos]
  · simp
  · intro c hc
    exact bne_iff_ne.mpr fun hQuote => h (hQuote ▸ List.mem_reverse.mp hc)

theorem name_eq_of_duplicateDeclaration {file : Path} {name other : String} {lines otherLines : List Nat}
    (h : duplicateDeclaration file name lines = duplicateDeclaration file other otherLines) :
    name = other := by
  obtain ⟨rest, hRest, hMessage⟩ := message_duplicateDeclaration file name lines
  obtain ⟨rest', hRest', hMessage'⟩ := message_duplicateDeclaration file other otherLines
  have hRead := @dropWhile_reverse_of_quote ('\'' :: name.toList) rest hRest
  rw [← hMessage, h, hMessage', dropWhile_reverse_of_quote hRest'] at hRead
  exact String.toList_inj.mp (by simpa using hRead.symm)

end Messages

end Diagnostic

namespace SourceFile

variable {f : SourceFile} {e : Entity} {name : String}

def Repeats (f : SourceFile) (name : String) : Prop := List.Duplicate name (f.entities.map Entity.name)

theorem repeats_iff : f.Repeats name ↔ 1 < (f.linesOf name).length := by
  rw [Repeats, List.duplicate_iff_two_le_count, List.count_eq_countP, List.countP_map, linesOf,
    List.length_map, ← List.countP_eq_length_filter]
  rfl

instance (f : SourceFile) (name : String) : Decidable (f.Repeats name) := decidable_of_iff' _ repeats_iff

/-- The entities follow each other, each with a token of its name in its span. -/
structure Orderly (f : SourceFile) : Prop where
  before : f.entities.Pairwise Entity.Before
  named : ∀ e ∈ f.entities, ∃ m ∈ f.tree.nodes, m.isName = true ∧ m.text = e.name ∧
    e.span.contains m.start = true

theorem Orderly.exists_other (h : f.Orderly) (he : e ∈ f.entities) (hRepeats : f.Repeats e.name) :
    ∃ e' ∈ f.entities, e'.name = e.name ∧ (e.Before e' ∨ e'.Before e) := by
  obtain ⟨front, back, hSplit⟩ := List.append_of_mem he
  have hBefore := h.before
  rw [Repeats, List.duplicate_iff_two_le_count, hSplit] at hRepeats
  rw [hSplit, List.pairwise_append, List.pairwise_cons] at hBefore
  have hOther : e.name ∈ front.map Entity.name ∨ e.name ∈ back.map Entity.name := by
    rw [← List.count_pos_iff, ← List.count_pos_iff]
    simp only [List.map_append, List.map_cons, List.count_append, List.count_cons_self] at hRepeats
    omega
  rcases hOther with hMem | hMem <;> obtain ⟨e', he', hName⟩ := List.mem_map.mp hMem
  · exact ⟨e', by simp [hSplit, he'], hName, .inr (hBefore.2.2 e' he' e List.mem_cons_self)⟩
  · exact ⟨e', by simp [hSplit, he'], hName, .inl (hBefore.2.1.1 e' he')⟩

theorem Orderly.mentionedOutside (h : f.Orderly) (he : e ∈ f.entities) (hRepeats : f.Repeats e.name)
    {names : List String} (hName : e.name ∈ names) : mentionedOutside (f.positions names) e = true := by
  obtain ⟨e', he', hAlike, hApart⟩ := h.exists_other he hRepeats
  obtain ⟨m, hm, hIsName, hText, hInside⟩ := h.named e' he'
  -- The token of the other entity stands in that one, and so outside this one.
  refine Bool.of_not_eq_false fun hOutside => ?_
  have hOwn := (mentionedOutside_eq_false hName).mp hOutside m hm hIsName (hText.trans hAlike)
  simp only [Span.contains, Bool.and_eq_true, decide_eq_true_eq] at hInside
  rcases hApart with hApart | hApart <;> have := hApart.apart <;> omega

theorem Orderly.not_repeats_of_unused (h : f.Orderly) {u : UsageIndex} {kinds : List EntityKind}
    (he : e ∈ f.unusedEntities u kinds) : ¬ f.Repeats e.name := by
  intro hRepeats
  obtain ⟨he, hUnused⟩ := List.mem_filter.mp he
  simp only [Bool.and_eq_true, Bool.not_eq_true', List.contains_iff_mem] at hUnused
  rw [h.mentionedOutside he hRepeats (name_mem_of_kind he hUnused.1.1)] at hUnused
  cases hUnused.2

def repeated (f : SourceFile) : List String :=
  (Text.setOf (f.entities.map Entity.name)).filter fun name => 1 < (f.linesOf name).length

theorem mem_repeated : name ∈ f.repeated ↔ f.Repeats name := by
  rw [repeated, List.mem_filter, Text.mem_setOf, decide_eq_true_iff, ← repeats_iff]
  exact and_iff_right_of_imp List.Duplicate.mem

theorem pairwise_repeated (f : SourceFile) : f.repeated.Pairwise (· < ·) :=
  (Text.setOf_pairwise _).filter _

theorem duplicateDeclarations_eq (f : SourceFile) : f.duplicateDeclarations =
    f.repeated.map fun name => .duplicateDeclaration f.path name (f.linesOf name) := by
  rw [duplicateDeclarations, repeated,
    ← List.filterMap_eq_map (f := fun name => Diagnostic.duplicateDeclaration f.path name (f.linesOf name)),
    List.filterMap_filter]
  simp

theorem nodup_duplicateDeclarations (f : SourceFile) : f.duplicateDeclarations.Nodup := by
  rw [duplicateDeclarations_eq]
  refine List.Pairwise.map _ (fun name other hlt heq => ?_) f.pairwise_repeated
  exact hlt.ne (Diagnostic.name_eq_of_duplicateDeclaration heq)

theorem Orderly.pairwise_linesOf (h : f.Orderly) (name : String) : (f.linesOf name).Pairwise (· ≤ ·) :=
  List.Pairwise.map _ (fun _ _ hBefore => hBefore.lines) (h.before.filter _)

/-- How the entities of a file lie, and what is said of the names that several of them have. -/
structure DiagnosesRepeats (f : SourceFile) (lines : LineTable) : Prop where
  apart : f.entities.Pairwise fun e later => e.span.stop ≤ later.span.start
  /-- The token of an entity's declaration starts inside the entity. -/
  named : ∀ e ∈ f.entities, ∃ n ∈ f.tree.namedChildren, ∃ x ∈ n.declarations,
    x.Draws lines n e ∧ x.token.isName = true ∧ e.span.contains x.token.start = true
  /-- Nothing of a repeated name is listed, whatever is known of other files. -/
  unlisted : ∀ (u : UsageIndex) (name : String), f.Repeats name →
    name ∉ (f.unusedFunctions u).map UnusedFunction.name ∧
      name ∉ (f.unusedComponents u).map UnusedFunction.name ∧
      name ∉ (f.deadCode u).map DeadCode.name
  /-- The diagnostics are those of the repeated names, with the lines in the order of the entities. -/
  diagnosed : ∃ names : List String, names.Nodup ∧ (∀ name, name ∈ names ↔ f.Repeats name) ∧
    f.duplicateDeclarations = names.map fun name => .duplicateDeclaration f.path name
      ((f.entities.filter (·.name == name)).map Entity.startLine)
  distinct : f.duplicateDeclarations.Nodup
  ascending : ∀ name, ((f.entities.filter (·.name == name)).map Entity.startLine).Pairwise (· ≤ ·)

section Trees

variable {tree : Node}

theorem exists_named_declaration (path : Path) (language : Language) (lines : LineTable)
    (hTree : tree.WellFormed) (hNames : tree.NamesDeclarations)
    (he : e ∈ (ofTree path language lines tree).entities) :
    ∃ n ∈ tree.namedChildren, ∃ x ∈ n.declarations, x.Draws lines n e ∧ x.token.isName = true ∧
      e.span.contains x.token.start = true := by
  obtain ⟨n, hn, he⟩ := List.mem_flatMap.mp he
  obtain ⟨x, hx, hDraws⟩ := Node.exists_declaration he
  obtain ⟨hName, hText⟩ := hNames n hn x hx
  have hStatement := hTree.of_child (Node.mem_children_of_named hn)
  exact ⟨n, hn, x, hx, hDraws, hName, (Node.holds_of_mem_declarations hx).contains hStatement hText hDraws⟩

theorem orderly_ofTree (path : Path) (language : Language) (source : Source) (hTree : tree.WellFormed)
    (hNames : tree.NamesDeclarations) : (ofTree path language (.ofSource source) tree).Orderly := by
  constructor
  case before => exact Node.pairwise_entities source hTree
  case named =>
    intro e he
    obtain ⟨n, hn, x, hx, hDraws, hName, hInside⟩ :=
      exists_named_declaration path language (.ofSource source) hTree hNames he
    obtain ⟨hCover, hToken⟩ := Node.holds_of_mem_declarations hx
    have hMem := Node.mem_nodes_of_child (Node.mem_children_of_named hn) (Node.mem_nodes_trans n hCover hToken)
    exact ⟨x.token, hMem, hName, hDraws.name.symm, hInside⟩

theorem entities_apart_repeats_diagnosed (path : Path) (language : Language) (source : Source)
    (hTree : tree.WellFormed) (hNames : tree.NamesDeclarations) :
    (ofTree path language (.ofSource source) tree).DiagnosesRepeats (.ofSource source) := by
  have h := orderly_ofTree path language source hTree hNames
  constructor
  case apart => exact h.before.imp Entity.Before.apart
  case named => exact fun e he => exists_named_declaration path language _ hTree hNames he
  case unlisted =>
    intro u name hRepeats
    refine ⟨fun hMem => ?_, fun hMem => ?_, fun hMem => ?_⟩ <;>
    · obtain ⟨record, hRecord, rfl⟩ := List.mem_map.mp hMem
      obtain ⟨e, he, rfl⟩ := List.mem_map.mp hRecord
      exact h.not_repeats_of_unused he hRepeats
  case diagnosed =>
    exact ⟨_, (pairwise_repeated _).imp ne_of_lt, fun _ => mem_repeated, duplicateDeclarations_eq _⟩
  case distinct => exact nodup_duplicateDeclarations _
  case ascending => exact h.pairwise_linesOf

/-- A function, a variable of a list and a class of one name. -/
def rivals : Source :=
  .ofString "function go() {}\nexport const go = 1, stay = () => go;\nexport default (class go {});\n"

set_option maxRecDepth 100000 in
theorem rivals_diagnosed : ∃ f, parse (.ofString "/app/a.js") rivals = .ok f ∧
    (f.tree.WellFormed ∧ f.tree.NamesDeclarations ∧
      f.entities.map Entity.name = ["go", "go", "stay", "go"] ∧
      f.entities.map Entity.span = [⟨0, 16⟩, ⟨30, 36⟩, ⟨38, 53⟩, ⟨55, 84⟩] ∧
      f.linesOf "go" = [1, 2, 3] ∧ f.Repeats "go" ∧ ¬ f.Repeats "stay") ∧
    f.DiagnosesRepeats (.ofSource rivals) := by
  refine Exists.imp (fun f h => ⟨h.1, h.2, ?_⟩)
    (exists_parsed (.ofString "/app/a.js") rivals (by decide +kernel))
  obtain ⟨language, tree, rfl⟩ := exists_ofTree_of_parse h.1
  exact entities_apart_repeats_diagnosed _ language rivals h.2.1 h.2.2.1

end Trees

end SourceFile

end ModuleAtlas
