import ModuleAtlas.Graph.Basic

/-!
# Snapshots of a graph

A snapshot names files by their display paths. Nodes are in text order, of several with one
name the last counts; edges are ordered by their two ends.
-/

namespace ModuleAtlas

set_option autoImplicit false

structure EdgeRecord where
  source : String
  target : String
  symbols : List String
  deriving DecidableEq, Repr, Inhabited

namespace EdgeRecord

def le (a b : EdgeRecord) : Bool :=
  decide (a.source < b.source) || (a.source == b.source && decide (a.target ≤ b.target))

end EdgeRecord

structure Snapshot where
  /-- In text order, one for each name. -/
  nodes : List (String × FileNode)
  edges : List EdgeRecord
  deriving DecidableEq, Repr, Inhabited

namespace Snapshot

/-- Put a node in its place; a node of the same name gives way. -/
def insertNode (name : String) (n : FileNode) : List (String × FileNode) → List (String × FileNode)
  | [] => [(name, n)]
  | (other, m) :: rest =>
    if name < other then (name, n) :: (other, m) :: rest
    else if name == other then (name, n) :: rest
    else (other, m) :: insertNode name n rest

def ofNodes (nodes : List (String × FileNode)) : List (String × FileNode) :=
  nodes.foldl (fun found n => insertNode n.1 n.2 found) []

end Snapshot

namespace FileGraph

def snapshot (g : FileGraph) : Snapshot :=
  { nodes := Snapshot.ofNodes (g.nodes.toList.map fun n => (g.display n.path, n))
    edges := (g.edges.map fun e =>
      (⟨g.display (g.pathAt e.source), g.display (g.pathAt e.target), e.symbols⟩ : EdgeRecord)).mergeSort
        EdgeRecord.le }

end FileGraph

end ModuleAtlas
