import ModuleAtlas.Program.Basic

/-!
# Import graphs

Nodes are files, numbered in the order in which they are added; an edge says that a file
imports another and what it asks for. A table beside the nodes has the number of each path:
whatever asks for a path asks that table. A graph grows by files and edges. Adding a file
answers with the number of its node, adding an edge with whether both of its files are there.
-/

namespace ModuleAtlas

set_option autoImplicit false

inductive ModuleKind where
  | components | functions | plain
  deriving DecidableEq, Repr, Inhabited

namespace ModuleKind

def label : ModuleKind → String
  | components => "component-module"
  | functions => "function-module"
  | plain => "module"

/-- The kind with a label; anything else is a plain module. -/
def ofLabel (text : String) : ModuleKind :=
  match text with
  | "component-module" => components
  | "function-module" => functions
  | _ => plain

/-- Components count before functions. -/
def ofFile (f : SourceFile) : ModuleKind :=
  if f.entities.any (·.kind == .component) then components
  else if f.entities.any (·.kind == .function) then functions
  else plain

end ModuleKind

structure FileNode where
  path : Path
  kind : ModuleKind
  exports : List String
  imports : List String
  deriving DecidableEq, Repr, Inhabited

namespace FileNode

/-- The node of a file: its exported names, stars left out, and the modules it imports. -/
def ofFile (f : SourceFile) : FileNode :=
  { path := f.path
    kind := .ofFile f
    exports := (f.exports.filter fun e => e.kind != .reexport || e.name != "*").map Export.name
    imports := Text.firstSeen (f.imports.map Import.source) }

end FileNode

structure ImportEdge where
  source : Nat
  target : Nat
  symbols : List String
  deriving DecidableEq, Repr, Inhabited

structure FileGraph where
  root : Path
  nodes : Array FileNode
  numbers : Table Path Nat
  edges : List ImportEdge
  deriving Inhabited

namespace FileGraph

def empty (root : Path) : FileGraph := ⟨root, #[], [], []⟩

def indexOf? (g : FileGraph) (path : Path) : Option Nat := g.numbers.value? Path.same path

def contains (g : FileGraph) (path : Path) : Bool := (g.indexOf? path).isSome

def node? (g : FileGraph) (path : Path) : Option FileNode :=
  (g.indexOf? path).bind fun i => g.nodes[i]?

def pathAt (g : FileGraph) (i : Nat) : Path := (g.nodes.getD i default).path

def display (g : FileGraph) (path : Path) : String := Path.display g.root path

def addFile (g : FileGraph) (n : FileNode) : FileGraph :=
  if g.contains n.path then g
  else { g with nodes := g.nodes.push n, numbers := g.numbers.put Path.same n.path g.nodes.size }

/-- Add symbols to the edge between two nodes; a new edge comes last. -/
def mergeEdge (source target : Nat) (symbols : List String) : List ImportEdge → List ImportEdge
  | [] => [⟨source, target, Text.firstSeen symbols⟩]
  | e :: rest =>
    if e.source == source && e.target == target then
      { e with symbols := Text.firstSeen (e.symbols ++ symbols) } :: rest
    else e :: mergeEdge source target symbols rest

/-- Add an edge between two files; without effect when one of them is missing. -/
def addEdge (g : FileGraph) (source target : Path) (symbols : List String) : FileGraph :=
  match g.indexOf? source, g.indexOf? target with
  | some a, some b => { g with edges := mergeEdge a b symbols g.edges }
  | _, _ => g

def edge? (g : FileGraph) (source target : Path) : Option ImportEdge :=
  match g.indexOf? source, g.indexOf? target with
  | some a, some b => g.edges.find? fun e => e.source == a && e.target == b
  | _, _ => none

def orderedNodes (is : List Nat) : List Nat :=
  Text.dropRepeats (is.mergeSort fun a b => decide (a ≤ b))

def successors (g : FileGraph) (i : Nat) : List Nat :=
  orderedNodes ((g.edges.filter (·.source == i)).map ImportEdge.target)

def predecessors (g : FileGraph) (i : Nat) : List Nat :=
  orderedNodes ((g.edges.filter (·.target == i)).map ImportEdge.source)

/-- What a file asks of other files of the program: first by imports, then by re-exports. -/
def requests (p : Program) (f : SourceFile) : List (Path × List String) :=
  f.imports.filterMap (fun i => (p.resolve f.path i.source).map (·, i.symbols))
    ++ f.exports.filterMap fun e => e.source.bind fun s => (p.resolve f.path s).map (·, [e.name])

def asked (p : Program) (f : SourceFile) : Table Path (List String) :=
  Table.gather Path.same (· ++ ·) [] (requests p f)

def addRequests (p : Program) (g : FileGraph) (f : SourceFile) : FileGraph :=
  (inOrder (fun a b => Path.le a.1 b.1) (asked p f)).foldl (fun g e => g.addEdge f.path e.1 e.2) g

def ofProgram (p : Program) : FileGraph :=
  p.files.foldl (addRequests p)
    (p.files.foldl (fun g f => g.addFile (.ofFile f)) (empty p.root))

end FileGraph

inductive Change where
  | file (n : FileNode)
  | edge (source target : Path) (symbols : List String)
  deriving DecidableEq, Repr, Inhabited

inductive Answer where
  | number (i : Nat)
  | joined (both : Bool)
  deriving DecidableEq, Repr, Inhabited

namespace FileGraph

def joins (g : FileGraph) (source target : Path) : Bool := g.contains source && g.contains target

/-- Make a change and answer it; a file that is new gets the next number. -/
def apply (g : FileGraph) : Change → FileGraph × Answer
  | .file n => (g.addFile n, .number ((g.indexOf? n.path).getD g.nodes.size))
  | .edge source target symbols => (g.addEdge source target symbols, .joined (g.joins source target))

def grow (g : FileGraph) (changes : List Change) : FileGraph :=
  changes.foldl (fun g c => (g.apply c).1) g

end FileGraph

end ModuleAtlas
