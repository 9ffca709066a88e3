import ModuleAtlas.Graph.Basic

/-!
# Neighbours of a file

Files that import the same files, files that many import, and files without any import.
-/

namespace ModuleAtlas

set_option autoImplicit false

structure RelatedFile where
  path : Path
  shared : List Path
  deriving DecidableEq, Repr, Inhabited

namespace RelatedFile

/-- More shared targets first, then by path. -/
def le (a b : RelatedFile) : Bool :=
  decide (b.shared.length < a.shared.length)
    || (a.shared.length == b.shared.length && Path.le a.path b.path)

end RelatedFile

namespace FileGraph

def sharedTargets (g : FileGraph) (i j : Nat) : List Nat :=
  (g.successors j).filter (g.successors i).contains

def related (g : FileGraph) (file : Path) (least : Nat) : List RelatedFile :=
  match g.indexOf? file with
  | none => []
  | some i =>
    let found := (List.range g.nodes.size).filterMap fun j =>
      let shared := g.sharedTargets i j
      if j == i || shared.length < max least 1 then none
      else some (⟨g.pathAt j, shared.map g.pathAt⟩ : RelatedFile)
    found.mergeSort RelatedFile.le

def orphans (g : FileGraph) : List Path :=
  ((List.range g.nodes.size).filter fun i =>
    (g.successors i).isEmpty && (g.predecessors i).isEmpty).map g.pathAt

def hubs (g : FileGraph) (limit : Nat) : List (Path × Nat) :=
  let counts := (List.range g.nodes.size).map fun i => (i, (g.edges.map ImportEdge.target).count i)
  (((counts.filter fun c => decide (0 < c.2)).mergeSort fun a b => decide (b.2 ≤ a.2)).take limit).map
    fun c => (g.pathAt c.1, c.2)

end FileGraph

end ModuleAtlas
