import ModuleAtlas.Export.Data

/-!
# The graph as a drawing

Three formats draw the nodes and edges of a snapshot and mark the files on cycles.
-/

namespace ModuleAtlas

set_option autoImplicit false

/-! ## Graphviz -/

namespace Dot

def escape (c : Char) : List Char :=
  if c == '\\' || c == '"' then ['\\', c] else [c]

def quote (s : String) : String := "\"" ++ String.ofList (s.toList.flatMap escape) ++ "\""

def fill : ModuleKind → String
  | .components => "#e3f2fd"
  | .functions => "#e8f5e9"
  | .plain => "#f5f5f5"

def border (cyclic : Bool) : String := if cyclic then "#e53935" else "#616161"

def nodeLine (d : ExportData) (name : String) (n : FileNode) : String :=
  "  " ++ quote name ++ " [kind=" ++ quote n.kind.label ++ ", style=filled, fillcolor="
    ++ quote (fill n.kind) ++ ", color=" ++ quote (border (d.isCyclic name)) ++ "];"

def edgeLine (e : EdgeRecord) : String :=
  "  " ++ quote e.source ++ " -> " ++ quote e.target ++
    (if e.symbols.isEmpty then "" else " [label=" ++ quote (", ".intercalate e.symbols) ++ "]") ++ ";"

def render (d : ExportData) : String :=
  unlines (["// Generated: " ++ d.generatedAt, "digraph imports \x7b", "  rankdir=LR;",
      "  node [shape=box, fontname=\"Helvetica\"];"]
    ++ d.graph.nodes.map (fun (name, n) => nodeLine d name n)
    ++ d.graph.edges.map edgeLine ++ ["\x7d"])

end Dot

/-! ## Mermaid flowcharts -/

namespace Mermaid

def escape (s : String) : String :=
  String.ofList (s.toList.flatMap fun c => if c == '"' then "#quot;".toList else [c])

def className (d : ExportData) (name : String) (n : FileNode) : String :=
  if d.isCyclic name then "cyclic"
  else match n.kind with
    | .components => "component"
    | .functions => "function"
    | .plain => "module"

def nodeName (i : Nat) : String := "n" ++ toString i

def nodeLines (d : ExportData) (i : Nat) (node : String × FileNode) : List String :=
  ["  " ++ nodeName i ++ "[\"" ++ escape node.1 ++ "\"]",
    "  class " ++ nodeName i ++ " " ++ className d node.1 node.2]

def edgeLine? (nodes : List (String × FileNode)) (e : EdgeRecord) : Option String := do
  let source ← nodes.findIdx? (·.1 == e.source)
  let target ← nodes.findIdx? (·.1 == e.target)
  let arrow := if e.symbols.isEmpty then " --> "
    else " -->|\"" ++ escape (", ".intercalate e.symbols) ++ "\"| "
  some ("  " ++ nodeName source ++ arrow ++ nodeName target)

def render (d : ExportData) : String :=
  unlines (["%% Generated: " ++ d.generatedAt, "graph LR"]
    ++ (d.graph.nodes.mapIdx (nodeLines d)).flatten
    ++ d.graph.edges.filterMap (edgeLine? d.graph.nodes)
    ++ ["  classDef component fill:#e3f2fd,stroke:#1e88e5",
      "  classDef function fill:#e8f5e9,stroke:#43a047",
      "  classDef module fill:#f5f5f5,stroke:#9e9e9e",
      "  classDef cyclic fill:#ffebee,stroke:#e53935"])

end Mermaid

/-! ## GraphML -/

namespace GraphMl

/-- The five characters that mean something in XML, as entities. -/
def escapeChar (c : Char) : List Char :=
  if c == '&' then "&amp;".toList
  else if c == '<' then "&lt;".toList
  else if c == '>' then "&gt;".toList
  else if c == '"' then "&quot;".toList
  else if c == '\'' then "&apos;".toList
  else [c]

def escape (s : String) : String := String.ofList (s.toList.flatMap escapeChar)

def dataLine (key value : String) : String :=
  "      <data key=\"" ++ key ++ "\">" ++ value ++ "</data>"

def nodeLines (d : ExportData) (name : String) (n : FileNode) : List String :=
  ["    <node id=\"" ++ escape name ++ "\">",
    dataLine "kind" n.kind.label,
    dataLine "exports" (escape (", ".intercalate n.exports)),
    dataLine "inCycle" (if d.isCyclic name then "true" else "false"),
    "    </node>"]

def edgeLines (i : Nat) (e : EdgeRecord) : List String :=
  ["    <edge id=\"e" ++ toString i ++ "\" source=\"" ++ escape e.source ++ "\" target=\""
      ++ escape e.target ++ "\">",
    dataLine "symbols" (escape (", ".intercalate e.symbols)),
    "    </edge>"]

def keyLine (key owner type : String) : String :=
  "  <key id=\"" ++ key ++ "\" for=\"" ++ owner ++ "\" attr.name=\"" ++ key ++ "\" attr.type=\""
    ++ type ++ "\"/>"

def render (d : ExportData) : String :=
  unlines (["<?xml version=\"1.0\" encoding=\"UTF-8\"?>",
      "<!-- Generated: " ++ d.generatedAt ++ " -->",
      "<graphml xmlns=\"http://graphml.graphdrawing.org/xmlns\">",
      keyLine "kind" "node" "string", keyLine "exports" "node" "string",
      keyLine "inCycle" "node" "boolean", keyLine "symbols" "edge" "string",
      "  <graph id=\"imports\" edgedefault=\"directed\">"]
    ++ d.graph.nodes.flatMap (fun (name, n) => nodeLines d name n)
    ++ (d.graph.edges.mapIdx edgeLines).flatten
    ++ ["  </graph>", "</graphml>"])

end GraphMl

end ModuleAtlas
