import ModuleAtlas.Proofs.File.Bindings
import ModuleAtlas.Proofs.File.Wrappers
import ModuleAtlas.Proofs.Syntax.Lines
import ModuleAtlas.Proofs.Syntax.Visits
import Mathlib.Data.List.Forall2

/-!
# What walks over a tree find

Every walk ends, and visits the nodes above which nothing is left out, in order. So a search for a
kind finds it wherever it is, and the search for imports, a loop of its own, finds every call of
`require` or `import` with a string among its arguments, unless the call stands inside an import
statement, as it may in the attributes of one.
-/

namespace ModuleAtlas

set_option autoImplicit false

namespace Node

section Calls

variable {m : Node} {lines : LineTable} {parent : Option Node} {i : Import}

/-- A call of something by name, of whose arguments the first string holds the text. -/
def Requests (m : Node) (name source : String) : Prop :=
  m.kind = .callExpression ∧ (m.child? .function).bind text? = some name ∧
    ((m.child? .arguments).bind fun args => args.children.find? (·.kind == .string)).map unquoted = some source

instance (m : Node) (name source : String) : Decidable (m.Requests name source) :=
  inferInstanceAs (Decidable (_ ∧ _ ∧ _))

def IsRequest (m : Node) : Prop := ∃ source, m.Requests "require" source ∨ m.Requests "import" source

/-- The import says what the call requests, in which form and on which line. -/
def Records (lines : LineTable) (m : Node) (i : Import) : Prop :=
  (m.Requests "require" i.source ∧ i.form = .required ∨ m.Requests "import" i.source ∧ i.form = .onDemand) ∧
    i.line = lines.lineAt m.start

theorem records_of_callImport? (hKind : m.kind = .callExpression)
    (h : m.callImport? lines parent = some i) : m.Records lines i := by
  obtain ⟨callee, hCallee, h⟩ := Option.bind_eq_some_iff.mp h
  obtain ⟨name, hName, h⟩ := Option.bind_eq_some_iff.mp h
  obtain ⟨args, hArgs, h⟩ := Option.bind_eq_some_iff.mp h
  obtain ⟨source, hSource, h⟩ := Option.bind_eq_some_iff.mp h
  have hRequests : m.Requests name source := ⟨hKind, by rw [hCallee]; exact hName, by rw [hArgs]; exact hSource⟩
  dsimp only at h
  split at h
  · rename_i hRequire
    cases h
    exact ⟨.inl ⟨by rwa [← beq_iff_eq.mp hRequire], rfl⟩, rfl⟩
  · split at h
    · rename_i hImport
      cases h
      exact ⟨.inr ⟨by rwa [← beq_iff_eq.mp hImport], rfl⟩, rfl⟩
    · cases h

theorem exists_callImport? (lines : LineTable) (parent : Option Node) (h : m.IsRequest) :
    ∃ i, m.callImport? lines parent = some i := by
  obtain ⟨source, h⟩ := h
  rcases h with ⟨-, hName, hSource⟩ | ⟨-, hName, hSource⟩
  all_goals
    obtain ⟨callee, hCallee, hName⟩ := Option.bind_eq_some_iff.mp hName
    obtain ⟨arg, hArg, rfl⟩ := Option.map_eq_some_iff.mp hSource
    obtain ⟨args, hArgs, hArg⟩ := Option.bind_eq_some_iff.mp hArg
    simp [callImport?, hCallee, hName, hArgs, hArg]

theorem line_of_importAt? (h : m.importAt? lines parent = some i) : i.line = lines.lineAt m.start := by
  rw [importAt?] at h
  split at h
  · cases (Option.ite_none_left_eq_some.mp h).2
    rfl
  · rename_i hKind
    exact (records_of_callImport? hKind h).2
  · cases h

theorem records_of_importAt? (h : m.importAt? lines parent = some i) (hForm : i.form ≠ .statement) :
    m.Records lines i := by
  rw [importAt?] at h
  split at h
  · exact absurd (form_of_statementImport? h) hForm
  · rename_i hKind
    exact records_of_callImport? hKind h
  · cases h

theorem exists_importAt? (lines : LineTable) (parent : Option Node) (h : m.IsRequest) :
    ∃ i, m.importAt? lines parent = some i ∧ i.form ≠ .statement := by
  have hKind : m.kind = .callExpression := by
    obtain ⟨source, h | h⟩ := h
    · exact h.1
    · exact h.1
  obtain ⟨i, hi⟩ := exists_callImport? lines parent h
  exact ⟨i, by simp only [importAt?, hKind, hi], form_of_callImport? hi⟩

theorem Records.isRequest (h : m.Records lines i) : m.IsRequest := by
  obtain ⟨⟨h, -⟩ | ⟨h, -⟩, -⟩ := h
  · exact ⟨i.source, .inl h⟩
  · exact ⟨i.source, .inr h⟩

end Calls

section Search

def Visit.import? (lines : LineTable) (n : Node) (v : Visit) : Option Import :=
  v.node.importAt? lines (n.parentAt? v.place)

theorem imports_eq_visits (lines : LineTable) (n : Node) :
    n.imports lines = (visits (sparing isImport) n ()).filterMap (Visit.import? lines n) := by
  let view (state : Unit × List Visit) : List Import := (state.2.filterMap (Visit.import? lines n)).reverse
  have hVisit : ∀ (c : Cursor) (state : Unit × List Visit), Within n c →
      collect lines c.parent? c.node (view state) =
        (view (recording (sparing isImport) c state).1, (recording (sparing isImport) c state).2) := by
    intro c state hc
    simp only [collect, view, recording, sparing, List.filterMap_append, List.reverse_append]
    rw [List.filterMap_cons, Visit.import?, hc.parentAt?_place]
    cases c.node.importAt? lines c.parent? <;> rfl
  have hWalk := walkFrom_view hVisit true (.ofNode n) ((), []) .start
  rw [imports, importsFrom_eq]
  exact List.reverse_eq_iff.mpr hWalk

theorem forall₂_filterMap {α β γ : Type} {R : β → γ → Prop} {f : α → Option β} {g : α → Option γ}
    (h : ∀ x, Option.Rel R (f x) (g x)) (xs : List α) : List.Forall₂ R (xs.filterMap f) (xs.filterMap g) := by
  induction xs with
  | nil => exact .nil
  | cons x xs ih =>
    have hx := h x
    rw [List.filterMap_cons, List.filterMap_cons]
    cases hf : f x <;> cases hg : g x <;> rw [hf, hg] at hx <;> cases hx
    · exact ih
    · exact .cons ‹_› ih

variable {lines : LineTable} {n : Node} {v : Visit} {i : Import}

def Visit.request? (lines : LineTable) (n : Node) (v : Visit) : Option Import :=
  (v.import? lines n).filter (·.form != .statement)

theorem Visit.records_of_request? (h : v.request? lines n = some i) : v.node.Records lines i := by
  obtain ⟨hImport, hForm⟩ := Option.filter_eq_some_iff.mp h
  exact records_of_importAt? hImport (by simpa using hForm)

theorem Visit.exists_request? (h : v.node.IsRequest) : ∃ i, v.request? lines n = some i := by
  obtain ⟨i, hImport, hForm⟩ := exists_importAt? lines (n.parentAt? v.place) h
  exact ⟨i, Option.filter_eq_some_iff.mpr ⟨hImport, by simpa using hForm⟩⟩

/-- Calls of `require` and `import` with the places where they stand, as the walk comes to them. -/
def requests (lines : LineTable) (n : Node) : List (List Nat × Node) :=
  (visits (sparing isImport) n ()).filterMap fun v =>
    (v.request? lines n).map fun _ => (v.place, v.node)

theorem mem_requests {place : List Nat} {m : Node} : (place, m) ∈ n.requests lines ↔
    n.nodeAt? place = some m ∧ m.IsRequest ∧ n.Clear isImport place := by
  have hToured := toured_visits (sparing isImport) n ()
  rw [requests, List.mem_filterMap]
  constructor
  · rintro ⟨v, hv, hRequest⟩
    obtain ⟨i, hi, hEq⟩ := Option.map_eq_some_iff.mp hRequest
    cases hEq
    have hInside := hToured.inside v hv
    exact ⟨hInside, (Visit.records_of_request? hi).isRequest, (visited_sparing_iff hInside).mp ⟨v, hv, rfl⟩⟩
  · rintro ⟨hm, hRequest, hClear⟩
    obtain ⟨v, hv, rfl⟩ := (visited_sparing_iff hm).mpr hClear
    cases (hToured.inside v hv).symm.trans hm
    obtain ⟨i, hi⟩ := @Visit.exists_request? lines n v hRequest
    exact ⟨v, hv, by rw [hi, Option.map_some]⟩

theorem pairwise_requests (lines : LineTable) (n : Node) :
    (n.requests lines).Pairwise fun c d => List.Lex (· < ·) c.1 d.1 := by
  refine (toured_visits (sparing isImport) n ()).ordered.filterMap _ fun v w hLex c hc d hd => ?_
  obtain ⟨-, -, rfl⟩ := Option.map_eq_some_iff.mp hc
  obtain ⟨-, -, rfl⟩ := Option.map_eq_some_iff.mp hd
  exact hLex

theorem forall₂_requests (lines : LineTable) (n : Node) :
    List.Forall₂ (fun call i => call.2.Records lines i) (n.requests lines)
      ((n.imports lines).filter (·.form != .statement)) := by
  have hFilter : (n.imports lines).filter (·.form != .statement) =
      (visits (sparing isImport) n ()).filterMap (Visit.request? lines n) := by
    rw [imports_eq_visits, List.filter_filterMap]
    rfl
  rw [hFilter]
  refine forall₂_filterMap (fun v => ?_) _
  cases hRequest : v.request? lines n with
  | none => exact .none
  | some i => exact .some (Visit.records_of_request? hRequest)

theorem WellFormed.pairwise_line (h : n.WellFormed) (source : Source) :
    (n.imports (.ofSource source)).Pairwise fun i j => i.line ≤ j.line := by
  have hToured := toured_visits (sparing isImport) n ()
  rw [imports_eq_visits, List.pairwise_filterMap]
  refine hToured.ordered.imp_of_mem fun {v w} hv hw hLex i hi j hj => ?_
  rw [line_of_importAt? hi, line_of_importAt? hj]
  exact LineTable.lineAt_mono source (h.start_le_of_lex hLex (hToured.inside v hv) (hToured.inside w hw))

end Search

/-- The loop ends within twice as many rounds as there are nodes, and tours the tree. -/
structure WalkTours {σ : Type} (visit : Node → σ → σ × Step) (n : Node) (state : σ) : Prop where
  ends : ∃ k ≤ 2 * n.size, Rounds (fun c => visit c.node) k true (.ofNode n) state (n.walk visit state)
  toured : Toured visit n.nodeAt? state (visits visit n state) (n.walk visit state)

structure RecordsCalls (lines : LineTable) (n : Node) : Prop where
  /-- The loop goes through the visits of the walk that leaves out what is below import statements. -/
  searched : n.imports lines = (visits (sparing isImport) n ()).filterMap (Visit.import? lines n)
  /-- The calls outside of import statements are recorded one by one in the order of their places. -/
  recorded : ∃ calls : List (List Nat × Node), calls.Pairwise (fun c d => List.Lex (· < ·) c.1 d.1) ∧
    (∀ place m, (place, m) ∈ calls ↔ n.nodeAt? place = some m ∧ m.IsRequest ∧ n.Clear isImport place) ∧
    List.Forall₂ (fun call i => call.2.Records lines i) calls
      ((n.imports lines).filter (·.form != .statement))
  /-- This is the order of the text. -/
  lines_le : n.WellFormed → ∀ source, lines = .ofSource source →
    (n.imports lines).Pairwise fun i j => i.line ≤ j.line

theorem walk_tours_and_records_calls (n : Node) :
    (∀ {σ : Type} (visit : Node → σ → σ × Step) (state : σ), WalkTours visit n state) ∧
      (∀ p : Kind → Bool, n.contains p = true ↔ ∃ place m, n.nodeAt? place = some m ∧ p m.kind = true) ∧
      ∀ lines, RecordsCalls lines n := by
  refine ⟨fun visit state => ?_, fun p => ?_, fun lines => ?_⟩
  · obtain ⟨k, hk, hRounds⟩ := rounds_walkFrom (fun c => visit c.node) true (.ofNode n) state
    exact ⟨⟨k, by simpa [Cursor.weight, Cursor.ofNode, Cursor.ahead] using hk, hRounds⟩, toured_visits visit n state⟩
  · rw [contains_eq_any, List.any_eq_true]
    constructor
    · rintro ⟨m, hm, hKind⟩
      obtain ⟨place, hPlace⟩ := mem_nodes_iff.mp hm
      exact ⟨place, m, hPlace, hKind⟩
    · rintro ⟨place, m, hPlace, hKind⟩
      exact ⟨m, mem_nodes_of_nodeAt? hPlace, hKind⟩
  · refine ⟨imports_eq_visits lines n, ?_, ?_⟩
    · exact ⟨n.requests lines, pairwise_requests lines n, fun _ _ => mem_requests, forall₂_requests lines n⟩
    · rintro h source rfl
      exact h.pairwise_line source

end Node

namespace SourceFile

def attributed : Source := .ofString "import data from './data.json' with \x7b type: require('./kind') \x7d;\n"

set_option maxRecDepth 100000 in
/-- A call of `require` with a string that is not recorded, since it stands inside an import statement. -/
theorem attributed_call_unrecorded : ∃ f, parse (.ofString "/app/a.js") attributed = .ok f ∧
    (∃ m ∈ f.tree.nodes, m.Requests "require" "./kind") ∧ f.imports.map Import.source = ["./data.json"] :=
  exists_parsed _ _ (by decide +kernel)

end SourceFile

end ModuleAtlas
