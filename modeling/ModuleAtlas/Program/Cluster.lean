import ModuleAtlas.File.SourceFile
import ModuleAtlas.Program.DisjointSets
import ModuleAtlas.Text.Kebab

/-!
# Clusters of a file

Two entities are related when they share a dependency or one mentions the other by name.
A file with enough entities is mixed when they fall into several connected clusters.
-/

namespace ModuleAtlas

set_option autoImplicit false

structure Cluster where
  entities : List String
  dependencies : List String
  suggested : Path
  deriving DecidableEq, Repr, Inhabited

structure MixedFile where
  file : Path
  entityCount : Nat
  clusters : List Cluster
  deriving DecidableEq, Repr, Inhabited

namespace Entity

def related (a b : Entity) : Bool :=
  a.dependencies.any b.dependencies.contains || a.references.contains b.name
    || b.references.contains a.name

end Entity

def suggestedFile (source : Path) (entity : String) : Path :=
  let name := Path.ofString (Kebab.ofName entity ++ "." ++ source.extensionText?.getD "ts")
  match source.parent? with
  | some dir => dir.join name
  | none => name

namespace Cluster

variable {n : Nat}

def pairs (n : Nat) : List (Fin n × Fin n) :=
  (List.finRange n).flatMap fun i =>
    ((List.finRange n).filter (fun j => decide (i < j))).map fun j => (i, j)

def connect (related : Fin n → Fin n → Bool) : DisjointSets n :=
  (pairs n).foldl (fun s p => if related p.1 p.2 then s.unite p.1 p.2 else s) (.singletons n)

/-- Put an element into the group of its root; a new group comes last. -/
def place (root member : Fin n) : List (Fin n × List (Fin n)) → List (Fin n × List (Fin n))
  | [] => [(root, [member])]
  | (r, members) :: rest =>
    if r == root then (r, members ++ [member]) :: rest else (r, members) :: place root member rest

/-- The members of each set, in order of their first members. -/
def groups (s : DisjointSets n) : List (List (Fin n)) :=
  ((List.finRange n).foldl (fun (state : DisjointSets n × List (Fin n × List (Fin n))) i =>
    let (root, s) := state.1.find i
    (s, place root i state.2)) (s, [])).2.map Prod.snd

def ofMembers (source : Path) (members : List Entity) : Cluster :=
  { entities := members.map Entity.name
    dependencies := Text.setOf (members.flatMap Entity.dependencies)
    suggested := suggestedFile source ((members.head?.map Entity.name).getD "") }

end Cluster

namespace SourceFile

def entityGroups (f : SourceFile) : List (List Entity) :=
  let entities := f.entities.toArray
  let sets := Cluster.connect fun (i j : Fin entities.size) => entities[i].related entities[j]
  (Cluster.groups sets).map fun members => members.map fun i => entities[i]

def mixed? (threshold : Nat) (f : SourceFile) : Option MixedFile :=
  if f.entities.length < threshold then none
  else
    let groups := f.entityGroups
    if groups.length < 2 then none
    else some ⟨f.path, f.entities.length, groups.map (Cluster.ofMembers f.path)⟩

end SourceFile

end ModuleAtlas
