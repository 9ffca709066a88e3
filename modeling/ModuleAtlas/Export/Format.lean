import ModuleAtlas.Export.Drawing
import ModuleAtlas.Export.Json
import ModuleAtlas.Export.Outline

/-!
# Exports by format
-/

namespace ModuleAtlas

set_option autoImplicit false

inductive Format where
  | json | outline | mermaid | graphMl | dot
  deriving DecidableEq, Repr, Inhabited

namespace Format

def label : Format → String
  | json => "json"
  | outline => "text"
  | mermaid => "mermaid"
  | graphMl => "graphml"
  | dot => "dot"

def ofName? (name : String) : Option Format :=
  match Text.lowerAscii name with
  | "json" => some json
  | "text" | "txt" => some outline
  | "mermaid" | "mmd" => some mermaid
  | "graphml" | "xml" => some graphMl
  | "dot" | "graphviz" => some dot
  | _ => none

def unknown (name : String) : String :=
  "Unknown export format: '" ++ name ++ "'. Valid formats: json, text, mermaid, graphml, dot"

end Format

/-- The export in a format; there may be none as JSON. -/
def ExportData.render (d : ExportData) : Format → Option String
  | .json => JsonExport.render d
  | .outline => some (Outline.render d)
  | .mermaid => some (Mermaid.render d)
  | .graphMl => some (GraphMl.render d)
  | .dot => some (Dot.render d)

end ModuleAtlas
