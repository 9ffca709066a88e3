import ModuleAtlas.Program.Resolver
import ModuleAtlas.Proofs.Path.Parent

/-!
# What module names stand for

A relative module name is taken from the directory of the importing file, any other one from the
root. Only the normal form of that directory counts, so for a path that ends in a name it makes no
difference whether it is normalized first.
-/

namespace ModuleAtlas.Resolver

open ModuleAtlas.Path ModuleAtlas.Part

set_option autoImplicit false

section Relative

variable (r : Resolver)

theorem base?_of_isRelative (importer : Path) {name : String} (h : isRelative name = true) :
    r.base? importer name =
      (importer.parent?.map Path.normalize).map fun dir => (dir.join (.ofString name)).normalize := by
  rw [base?, if_pos h, Option.map_map]
  congr 1
  funext dir
  exact (normalize_join_normalize dir _).symm

theorem base?_of_not_isRelative (p q : Path) {name : String} (h : isRelative name = false) :
    r.base? p name = r.base? q name := by
  simp only [base?, h, Bool.false_eq_true, if_false]

/-- A directory continued by a name of its own. -/
theorem normalize_join_name (dir : Path) :
    (dir.normalize.join (.ofString "./x")).normalize = ⟨dir.rooted, dir.normalize.pieces ++ [.ofString "x"]⟩ := by
  have hSteps : (Path.ofString "./x").steps = [name "x"] := by decide
  rw [normalize_join _ (by decide), hSteps, landing_normalize, rooted_normalize, normalize_eq]
  simp [resolveStep]

theorem base?_normalize_iff (p : Path) : (∀ name, r.base? p.normalize name = r.base? p name) ↔
    p.normalize.parent?.map Path.normalize = p.parent?.map Path.normalize := by
  constructor
  · intro h
    have hBase := h "./x"
    rw [r.base?_of_isRelative _ (by decide), r.base?_of_isRelative _ (by decide), Option.map_map,
      Option.map_map] at hBase
    -- the base path tells the directory: it is all but the last piece
    have hTells : ∀ o : Option Path,
        (o.map ((fun dir => (dir.join (.ofString "./x")).normalize) ∘ Path.normalize)).map
          (fun q => (⟨q.rooted, q.pieces.dropLast⟩ : Path)) = o.map Path.normalize := by
      intro o
      rw [Option.map_map]
      congr 1
      funext dir
      simp only [Function.comp_apply, normalize_join_name, List.dropLast_concat]
      rfl
    rw [← hTells p.parent?, ← hBase, hTells]
  · intro h name
    cases hName : isRelative name with
    | true => rw [r.base?_of_isRelative _ hName, r.base?_of_isRelative _ hName, h]
    | false => exact r.base?_of_not_isRelative _ _ hName

end Relative

theorem getLast?_of_fileName? {p : Path} {s : Piece} (h : p.fileName? = some s) :
    p.parts.getLast? = some (.name s) := by
  unfold fileName? at h
  split at h
  · rename_i t hLast
    rw [hLast, Option.some.inj h]
  · cases h

theorem base?_normalize_of_fileName? (r : Resolver) {p : Path} {s : Piece} (h : p.fileName? = some s)
    (name : String) : r.base? p.normalize name = r.base? p name := by
  have hLast := getLast?_of_fileName? h
  refine (r.base?_normalize_iff p).mpr (p.parent?_normalize_iff.mpr ⟨?_, fun hUp => ?_⟩) name
  · intro hHere
    rw [hHere] at hLast
    cases hLast
  · rw [hLast] at hUp
    cases hUp

/-- What normalizing does to a path, to what continues it and to the module names that are taken from it. -/
structure AbsorbsNormalize (p : Path) : Prop where
  joined : ∀ q, (p.join q).normalize = (p.normalize.join q).normalize
  settled : p.normalize.normalize = p.normalize
  start : p.normalize.rooted = p.rooted
  written : ∃ names, (∀ s ∈ names, Plain s) ∧
    (p.normalize.pieces = names ∨ p.normalize.pieces = .ofString ".." :: names)
  base_of_name : ∀ s, p.fileName? = some s → ∀ (r : Resolver) (name : String), r.base? p.normalize name = r.base? p name
  base_iff : ∀ r : Resolver, (∀ name, r.base? p.normalize name = r.base? p name) ↔
    p.parts ≠ [here] ∧
      (p.parts.getLast? = some up → ∀ dir, p.parent? = some dir → dir.normalize.pieces = [])

theorem join_absorbs_normalize (p : Path) : AbsorbsNormalize p := by
  constructor
  case joined => exact fun q => (p.normalize_join_normalize q).symm
  case settled => exact p.normalize_normalize
  case start => exact p.rooted_normalize
  case written =>
    refine ⟨(bearing p.steps).kept.reverse, fun s hs => plain_of_mem_kept (List.mem_reverse.mp hs), ?_⟩
    rw [pieces_normalize]
    unfold remnant
    split
    · exact .inr rfl
    · exact .inl rfl
  case base_of_name => exact fun s hs r name => r.base?_normalize_of_fileName? hs name
  case base_iff => exact fun r => (r.base?_normalize_iff p).trans p.parent?_normalize_iff

/-- A path that ends by going up lies elsewhere than its normal form. -/
theorem base_moved_by_normalizing :
    let r : Resolver := ⟨.ofString "/app", [.ofString "/app/src/x.ts", .ofString "/x.ts"], []⟩
    let p := Path.ofString "/app/src/.."
    p.normalize = .ofString "/app" ∧
    r.base? p "./x" = some (.ofString "/app/src/x") ∧ r.base? p.normalize "./x" = some (.ofString "/x") ∧
    r.resolve p "./x" = some (.ofString "/app/src/x.ts") ∧ r.resolve p.normalize "./x" = some (.ofString "/x.ts") ∧
    ¬ ∀ name, r.base? p.normalize name = r.base? p name := by
  refine ⟨by decide, by decide, by decide, by decide, by decide, fun hSame => ?_⟩
  exact absurd (hSame "./x") (by decide)

end ModuleAtlas.Resolver
