import ModuleAtlas.File.Import
import ModuleAtlas.Proofs.Syntax.Cursor

/-!
# The search for imports as a walk

The loop that looks for imports goes the way of a walk that leaves out what is below import
statements, and puts down what each node is that the walk visits.
-/

namespace ModuleAtlas.Node

set_option autoImplicit false

def collect (lines : LineTable) (parent : Option Node) (n : Node) (found : List Import) :
    List Import × Step :=
  ((n.importAt? lines parent).toList ++ found, if n.kind == .importStatement then .skip else .descend)

theorem importsFrom_eq (lines : LineTable) (fresh : Bool) (c : Cursor) (found : List Import) :
    importsFrom lines fresh c found = walkFrom (fun c => collect lines c.parent? c.node) fresh c found := by
  have hEnter : ∀ (fresh : Bool) (c : Cursor) (found : List Import),
      ((if fresh then collect lines c.parent? c.node found else (found, .skip)).2 == .descend) =
        (fresh && c.node.kind != .importStatement) := by
    intro fresh c found
    cases fresh with
    | false => rfl
    | true => cases hKind : c.node.kind == .importStatement <;> simp [collect, hKind, bne]
  fun_induction importsFrom lines fresh c found with
  | case1 fresh c found after hNone =>
    rw [walkFrom_eq]
    simp only [hEnter, hNone, Option.elim_none]
    cases fresh <;> rfl
  | case2 fresh c found after unseen next hSome ih =>
    rw [walkFrom_eq, ih]
    simp only [hEnter, hSome, Option.elim_some]
    cases fresh <;> rfl

theorem imports_eq (lines : LineTable) (n : Node) :
    n.imports lines = (walkUnder (collect lines) none n []).reverse := by
  rw [imports, importsFrom_eq, walkFrom_eq_walkUnder (collect lines)]

end ModuleAtlas.Node
