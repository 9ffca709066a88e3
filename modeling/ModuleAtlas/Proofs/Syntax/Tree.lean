import ModuleAtlas.Syntax.Tree
import ModuleAtlas.Proofs.Syntax.Rules

/-!
# Trees that are read are sound

Putting the comments back changes no node and adds leaves that play no part.
-/

namespace ModuleAtlas

set_option autoImplicit false

open Node

namespace Kind

def isComment : Kind → Bool
  | .comment | .htmlComment => true
  | _ => false

theorem isFree_of_isComment {k : Kind} : k.isComment = true → k.isFree = true := by
  cases k <;> decide

end Kind

/-- A comment, which is a leaf and plays no part. -/
structure Node.IsComment (n : Node) : Prop where
  kind : n.kind.isComment = true
  role : n.role = none
  children : n.children = []

theorem Node.IsComment.wellMade {n : Node} (h : n.IsComment) : WellMade n :=
  ⟨sound_iff.mpr ⟨.of_free (Kind.isFree_of_isComment h.kind), by simp [h.children]⟩, h.role⟩

namespace Comment

variable {s : Source} {n : Node}

theorem isComment_of_mem_between {stop fuel i : Nat} {acc : List Node} (h : n ∈ between s stop fuel i acc) :
    n ∈ acc ∨ n.IsComment := by
  induction fuel generalizing i acc with
  | zero => exact .inl h
  | succ fuel ih =>
    have hLeaf : ∀ k j l, k.isComment = true →
        n ∈ between s stop fuel l (.leaf k none j (s.slice j l) :: acc) → n ∈ acc ∨ n.IsComment := by
      intro k j l hk hn
      rcases ih hn with hn | hn
      · rcases List.mem_cons.mp hn with rfl | hn
        · exact .inr ⟨hk, rfl, rfl⟩
        · exact .inl hn
      · exact .inr hn
    simp only [between] at h
    split at h
    · split at h
      · split at h
        · exact hLeaf _ _ _ rfl h
        · exact .inl h
      · split at h
        · split at h
          · exact hLeaf _ _ _ rfl h
          · exact .inl h
        · exact .inl h
    · exact .inl h

theorem isComment_of_mem_gather {lo hi : Nat} {acc : List Node} (h : n ∈ gather s lo hi acc) :
    n ∈ acc ∨ n.IsComment := by
  unfold gather at h
  split at h
  · exact isComment_of_mem_between h
  · exact .inl h

theorem mem_placeAll {stop i : Nat} {cs acc : List Node} (h : n ∈ placeAll s stop cs i acc) :
    n ∈ acc ∨ n.IsComment ∨ ∃ c ∈ cs, n = place s c := by
  induction cs generalizing i acc with
  | nil => exact (isComment_of_mem_gather (by rwa [placeAll] at h)).imp_right .inl
  | cons c cs ih =>
    rw [placeAll] at h
    rcases ih h with h | h | ⟨d, hd, rfl⟩
    · rcases List.mem_cons.mp h with rfl | h
      · exact .inr (.inr ⟨c, List.mem_cons_self, rfl⟩)
      · exact (isComment_of_mem_gather h).imp_right .inl
    · exact .inr (.inl h)
    · exact .inr (.inr ⟨d, List.mem_cons_of_mem c hd, rfl⟩)

theorem mem_between_of_mem {stop fuel i : Nat} {acc : List Node} (h : n ∈ acc) :
    n ∈ between s stop fuel i acc := by
  induction fuel generalizing i acc with
  | zero => exact h
  | succ fuel ih =>
    unfold between
    dsimp only
    split
    · split
      · split
        · exact ih (List.mem_cons_of_mem _ h)
        · exact h
      · split
        · split
          · exact ih (List.mem_cons_of_mem _ h)
          · exact h
        · exact h
    · exact h

theorem mem_gather_of_mem {lo hi : Nat} {acc : List Node} (h : n ∈ acc) : n ∈ gather s lo hi acc := by
  unfold gather
  split
  · exact mem_between_of_mem h
  · exact h

theorem mem_placeAll_of_mem {stop i : Nat} {cs acc : List Node}
    (h : n ∈ acc ∨ ∃ c ∈ cs, n = place s c) : n ∈ placeAll s stop cs i acc := by
  induction cs generalizing i acc with
  | nil =>
    rw [placeAll]
    exact mem_gather_of_mem (h.resolve_right (by simp))
  | cons c cs ih =>
    rw [placeAll]
    apply ih
    rcases h with h | ⟨d, hd, rfl⟩
    · exact .inl (List.mem_cons_of_mem _ (mem_gather_of_mem h))
    · rcases List.mem_cons.mp hd with rfl | hd
      · exact .inl List.mem_cons_self
      · exact .inr ⟨d, hd, rfl⟩

theorem kind_place (s : Source) (n : Node) : (place s n).kind = n.kind := by
  cases n <;> rfl

theorem role_place (s : Source) (n : Node) : (place s n).role = n.role := by
  cases n <;> rfl

theorem text?_place (s : Source) (n : Node) : (place s n).text? = n.text? := by
  cases n <;> rfl

theorem text_place (s : Source) (n : Node) : (place s n).text = n.text := by
  rw [text, text?_place, text]

theorem isName_place (s : Source) (n : Node) : (place s n).isName = n.isName := by
  rw [isName, kind_place, isName]

theorem mem_children_place {c : Node} (h : c ∈ (place s n).children) :
    c.IsComment ∨ ∃ d ∈ n.children, c = place s d := by
  cases n with
  | leaf k r i t => cases h
  | branch k r i e cs =>
    rw [place, children, List.mem_reverse] at h
    exact (mem_placeAll h).resolve_left List.not_mem_nil

theorem place_mem_children {d : Node} (h : d ∈ n.children) : place s d ∈ (place s n).children := by
  cases n with
  | leaf k r i t => cases h
  | branch k r i e cs =>
    rw [place, children, List.mem_reverse]
    exact mem_placeAll_of_mem (.inr ⟨d, h, rfl⟩)

theorem fits_place (h : n.Fits) : (place s n).Fits where
  bare hName := by
    rw [text_place]
    exact h.bare (by rwa [isName_place] at hName)
  named hKind c hc hRole := by
    rw [kind_place] at hKind
    rcases mem_children_place hc with hComment | ⟨d, hd, rfl⟩
    · simp [hComment.role] at hRole
    · rw [isName_place]
      exact h.named hKind d hd (by rwa [role_place] at hRole)
  imported hKind c hc hRole := by
    rw [kind_place] at hKind
    rcases mem_children_place hc with hComment | ⟨d, hd, rfl⟩
    · simp [hComment.role] at hRole
    · rw [isName_place, text_place]
      exact h.imported hKind d hd (by rwa [role_place] at hRole)

mutual

theorem sound_place (s : Source) (n : Node) (h : n.Sound) : (place s n).Sound := by
  obtain ⟨hFits, hChildren⟩ := sound_iff.mp h
  refine sound_iff.mpr ⟨fits_place hFits, fun c hc => ?_⟩
  rcases mem_children_place hc with hComment | ⟨d, hd, rfl⟩
  · exact hComment.wellMade.good.1
  · cases n with
    | leaf k r i t => cases hd
    | branch k r i e cs => exact sound_place_all s cs hChildren d hd

theorem sound_place_all (s : Source) (cs : List Node) (h : ∀ c ∈ cs, c.Sound) :
    ∀ c ∈ cs, (place s c).Sound := by
  cases cs with
  | nil => exact nofun
  | cons c cs =>
    obtain ⟨hc, hcs⟩ := List.forall_mem_cons.mp h
    exact List.forall_mem_cons.mpr ⟨sound_place s c hc, sound_place_all s cs hcs⟩

end

end Comment

namespace Syntax

open Grammar

theorem sound_rule (g : Goal) : (rule g).Sound := by
  cases g <;> unfold rule <;> infer_instance

theorem wellMade_answer (text : String) (d : Dialect) (depth : Nat) :
    ∀ g i n j, answer (.ofString text) d depth g i = some (n, j) → WellMade n := by
  induction depth with
  | zero => exact nofun
  | succ depth ih =>
    intro g i n j h
    exact (sound_rule g).gives _ ⟨⟨text, rfl⟩, ih⟩ i n j h

theorem sound_of_parse {d : Dialect} {text : String} {n : Node} (h : parse d (.ofString text) = some n) :
    n.Sound := by
  unfold parse at h
  split at h
  case h_1 m j hm =>
    cases h
    have hMade := Parser.Sound.gives (p := programRule) _ ⟨⟨text, rfl⟩, wellMade_answer text d _⟩ 0 m j hm
    exact Comment.sound_place _ m inferInstance
  case h_2 => cases h

end Syntax

end ModuleAtlas
