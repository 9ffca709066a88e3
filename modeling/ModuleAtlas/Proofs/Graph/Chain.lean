import ModuleAtlas.Proofs.Graph.Walk
import Mathlib.Data.List.Shortlex

/-!
# Chains between two nodes

A chain is a list of nodes with a step from each to the next. Of two chains the shorter one
precedes; chains of equal length are compared node by node.
-/

namespace ModuleAtlas.Walk

set_option autoImplicit false

variable {r : Nat → Nat → Prop}

structure Leads (r : Nat → Nat → Prop) (c : List Nat) (v w : Nat) : Prop where
  begins : c.head? = some v
  ends : c.getLast? = some w
  linked : c.IsChain r

theorem leads_singleton (v : Nat) : Leads r [v] v v := ⟨rfl, rfl, List.isChain_singleton v⟩

theorem Leads.snoc {c : List Nat} {u v w : Nat} (h : Leads r c v u) (huw : r u w) :
    Leads r (c ++ [w]) v w where
  begins := by
    rw [List.head?_append, h.begins]
    rfl
  ends := List.getLast?_concat
  linked := h.linked.append (List.isChain_singleton w) (by
    rw [h.ends]
    simpa using huw)

theorem Leads.cases_snoc {c : List Nat} {v w : Nat} (h : Leads r c v w) :
    (c = [v] ∧ w = v) ∨ ∃ u c', c = c' ++ [w] ∧ Leads r c' v u ∧ r u w := by
  obtain ⟨hBegins, hEnds, hLinked⟩ := h
  rcases List.eq_nil_or_concat' c with rfl | ⟨c', x, rfl⟩
  · cases hBegins
  · obtain rfl : x = w := by simpa using hEnds
    rcases List.eq_nil_or_concat' c' with rfl | ⟨c'', u, rfl⟩
    · have hv : x = v := by simpa using hBegins
      exact .inl ⟨by simp [hv], hv⟩
    · rw [List.isChain_append] at hLinked
      refine .inr ⟨u, _, rfl, ⟨?_, by simp, hLinked.1⟩, hLinked.2.2 u (by simp) x (by simp)⟩
      rwa [List.head?_append_of_ne_nil _ (by simp)] at hBegins

theorem Leads.reflTransGen {c : List Nat} {v w : Nat} (h : Leads r c v w) :
    Relation.ReflTransGen r v w :=
  reflTransGen_of_chain h.linked h.begins h.ends

abbrev Before (c d : List Nat) : Prop := List.Shortlex (· < ·) c d

def Precedes (c d : List Nat) : Prop := c = d ∨ Before c d

theorem Before.trans {a b c : List Nat} (hab : Before a b) (hbc : Before b c) : Before a c := by
  rw [Before, List.shortlex_def] at *
  rcases hab with hab | ⟨hab, hLex⟩ <;> rcases hbc with hbc | ⟨hbc, hLex'⟩
  · exact .inl (by omega)
  · exact .inl (by omega)
  · exact .inl (by omega)
  · exact .inr ⟨by omega, List.lt_trans hLex hLex'⟩

theorem Precedes.trans {a b c : List Nat} (hab : Precedes a b) (hbc : Precedes b c) : Precedes a c := by
  rcases hab with rfl | hab
  · exact hbc
  · rcases hbc with rfl | hbc
    · exact .inr hab
    · exact .inr (hab.trans hbc)

theorem before_snoc_self (c : List Nat) (x : Nat) : Before c (c ++ [x]) :=
  .of_length_lt (by simp)

theorem before_snoc_of_lt (c : List Nat) {x y : Nat} (h : x < y) : Before (c ++ [x]) (c ++ [y]) :=
  .append_left (by simpa using h) c

theorem lex_append {c d : List Nat} (hLength : c.length = d.length) (h : List.Lex (· < ·) c d)
    (a b : List Nat) : List.Lex (· < ·) (c ++ a) (d ++ b) := by
  induction h with
  | nil => cases hLength
  | rel hxy => exact .rel hxy
  | cons _ ih => exact .cons (ih (by simpa using hLength))

theorem Leads.precedes_singleton {c : List Nat} {v w : Nat} (h : Leads r c v w) : Precedes [v] c := by
  have hBegins := h.begins
  match c with
  | [] => cases hBegins
  | [x] => exact .inl (by simpa using hBegins.symm)
  | x :: y :: c => exact .inr (.of_length_lt (by simp))

theorem Before.snoc {c d : List Nat} (h : Before c d) (x y : Nat) : Before (c ++ [x]) (d ++ [y]) := by
  rw [Before, List.shortlex_def] at *
  simp only [List.length_append, List.length_singleton]
  rcases h with h | ⟨hLength, hLex⟩
  · exact .inl (by omega)
  · exact .inr ⟨by omega, lex_append hLength hLex [x] [y]⟩

theorem Precedes.snoc {c d : List Nat} (h : Precedes c d) (x : Nat) : Precedes (c ++ [x]) (d ++ [x]) := by
  rcases h with rfl | h
  · exact .inl rfl
  · exact .inr (h.snoc x x)

/-- Least of all chains between its ends, by length and then node by node. -/
def Least (r : Nat → Nat → Prop) (c : List Nat) (v w : Nat) : Prop :=
  ∀ d, Leads r d v w → c.length ≤ d.length ∧ (c.length = d.length → c = d ∨ List.Lex (· < ·) c d)

theorem Precedes.length_le_and_lex {c d : List Nat} (h : Precedes c d) :
    c.length ≤ d.length ∧ (c.length = d.length → c = d ∨ List.Lex (· < ·) c d) := by
  rcases h with rfl | h
  · exact ⟨le_rfl, fun _ => .inl rfl⟩
  · rcases List.shortlex_def.mp h with h | ⟨hLength, hLex⟩
    · exact ⟨h.le, fun hEq => absurd hEq (by omega)⟩
    · exact ⟨hLength.le, fun _ => .inr hLex⟩

end ModuleAtlas.Walk
