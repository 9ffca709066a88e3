import ModuleAtlas.Proofs.Graph.Walk

/-!
# Ways around a loop

On a loop every node leads to every other one, and each node that leads back to itself lies on
some loop. A loop without a branch has no node that another loop through it could leave out.
-/

namespace ModuleAtlas.Walk

open Relation

set_option autoImplicit false

variable {r s : Nat → Nat → Prop} {c d : List Nat} {v w : Nat}

theorem Loop.imp_of_mem (h : Loop r c) (hrs : ∀ v ∈ c, ∀ w ∈ c, r v w → s v w) : Loop s c where
  ne_nil := h.ne_nil
  nodup := h.nodup
  linked := h.linked.imp_of_mem_imp fun v w hv hw => hrs v hv w hw
  closed v w hClose :=
    hrs v (List.mem_of_getLast? hClose.1) w (List.mem_of_head? hClose.2) (h.closed v w hClose)

theorem Loop.exists_next (h : Loop r c) (hv : v ∈ c) : ∃ w ∈ c, r v w := by
  obtain ⟨before, after, rfl⟩ := List.append_of_mem hv
  cases after with
  | nil =>
    have hHead := List.head?_eq_some_head h.ne_nil
    exact ⟨_, List.head_mem h.ne_nil, h.closed _ _ ⟨List.getLast?_concat, hHead⟩⟩
  | cons w after =>
    have hLinked := h.linked.right_of_append
    exact ⟨w, by simp, (List.isChain_cons_cons.mp hLinked).1⟩

theorem Loop.reaches (h : Loop r c) (hv : v ∈ c) (hw : w ∈ c) : ReflTransGen r v w := by
  have hHead := List.head?_eq_some_head h.ne_nil
  have hLast := List.getLast?_eq_some_getLast h.ne_nil
  have hOn : ReflTransGen r v (c.getLast h.ne_nil) := by
    obtain ⟨before, after, hc⟩ := List.append_of_mem hv
    have hLinked : (v :: after).IsChain r := (hc ▸ h.linked).right_of_append
    refine reflTransGen_of_chain hLinked rfl ?_
    rw [← hLast, hc, List.getLast?_append_of_ne_nil _ (List.cons_ne_nil v after)]
  have hBack : ReflTransGen r (c.head h.ne_nil) w := by
    obtain ⟨before, after, hc⟩ := List.append_of_mem hw
    have hSplit : c = (before ++ [w]) ++ after := by rw [hc, List.append_assoc]; rfl
    have hLinked : (before ++ [w]).IsChain r := (hSplit ▸ h.linked).left_of_append
    refine reflTransGen_of_chain hLinked ?_ List.getLast?_concat
    rw [← hHead]
    simp [hSplit]
  exact (hOn.tail (h.closed _ _ ⟨hLast, hHead⟩)).trans hBack

theorem Loop.transGen (h : Loop r c) (hv : v ∈ c) : TransGen r v v := by
  obtain ⟨w, hw, hvw⟩ := h.exists_next hv
  exact .head' hvw (h.reaches hw hv)

theorem exists_simple_chain (h : ReflTransGen r v w) :
    ∃ c : List Nat, c.Nodup ∧ c.IsChain r ∧ c.head? = some v ∧ c.getLast? = some w := by
  induction h using ReflTransGen.head_induction_on with
  | refl => exact ⟨[w], by simp⟩
  | @head u v huv _ ih =>
    obtain ⟨c, hNodup, hLinked, hHead, hLast⟩ := ih
    by_cases hu : u ∈ c
    · -- the chain comes back to where it starts: what lies before is left out
      obtain ⟨before, after, rfl⟩ := List.append_of_mem hu
      exact ⟨u :: after, hNodup.of_append_right, hLinked.right_of_append, rfl, by simpa using hLast⟩
    · refine ⟨u :: c, hNodup.cons hu, List.isChain_cons.mpr ⟨?_, hLinked⟩, rfl, ?_⟩
      · intro x hx
        rw [hHead] at hx
        cases hx
        exact huv
      · cases c with
        | nil => cases hHead
        | cons x c => rwa [List.getLast?_cons_cons]

theorem exists_loop_of_transGen (h : TransGen r v v) : ∃ c, Loop r c ∧ v ∈ c := by
  obtain ⟨u, hvu, huv⟩ := TransGen.tail'_iff.mp h
  obtain ⟨c, hNodup, hLinked, hHead, hLast⟩ := exists_simple_chain hvu
  refine ⟨c, ⟨?_, hNodup, hLinked, ?_⟩, List.mem_of_head? hHead⟩
  · rintro rfl
    cases hHead
  · rintro x y ⟨hx, hy⟩
    rw [hLast] at hx
    rw [hHead] at hy
    cases hx
    cases hy
    exact huv

/-- Every node of a list has only one step from which a way leads back to it. -/
def Unbranched (r : Nat → Nat → Prop) (c : List Nat) : Prop :=
  ∀ v ∈ c, ∀ w w', r v w → r v w' → ReflTransGen r w v → ReflTransGen r w' v → w = w'

theorem Loop.subset_of_unbranched (h : Loop r c) (hUnbranched : Unbranched r c) (hd : Loop r d)
    (hv : v ∈ c) (hvd : v ∈ d) : c ⊆ d := by
  intro w hw
  -- go around `c` from a common node: each step is the only one, so `d` takes it too
  have hInside : Loop (fun x y => r x y ∧ x ∈ c ∧ y ∈ c) c :=
    h.imp_of_mem fun x hx y hy hxy => ⟨hxy, hx, hy⟩
  have hWay := hInside.reaches hv hw
  induction hWay with
  | refl => exact hvd
  | @tail x y _ hxy ih =>
    obtain ⟨hStep, hx, hy⟩ := hxy
    have hxd := ih hx
    obtain ⟨z, hz, hxz⟩ := hd.exists_next hxd
    rw [hUnbranched x hx y z hStep hxz (h.reaches hy hx) (hd.reaches hz hxd)]
    exact hz

end ModuleAtlas.Walk
