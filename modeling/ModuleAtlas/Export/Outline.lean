import ModuleAtlas.Export.Data

/-!
# Outlines

A report for readers: sections in a fixed order, each with its number of findings.
-/

namespace ModuleAtlas.Outline

set_option autoImplicit false

/-- A section: its title with the number of findings, underlined, and a line for each finding. -/
def section_ (title : String) (count : Nat) (lines : List String) : List String :=
  let heading := title ++ " (" ++ toString count ++ ")"
  [heading, String.ofList (List.replicate heading.utf8ByteSize '-')]
    ++ (if count == 0 then ["  none"] else lines) ++ [""]

/-- A row of the summary, the number in its column. -/
def row (label : String) (count : Nat) : String :=
  let label := label ++ ":"
  "  " ++ label ++ String.ofList (List.replicate (22 - label.length) ' ') ++ toString count

def summaryRows (s : Summary) : List String :=
  [row "Files analyzed" s.files, row "Unused imports" s.unusedImports,
    row "Unused functions" s.unusedFunctions, row "Unused components" s.unusedComponents,
    row "Dead code" s.deadCode, row "Complexity warnings" s.complexityWarnings,
    row "Mixed logic files" s.mixedFiles, row "Split entities" s.splitFamilies,
    row "Dependency cycles" s.cycles, row "Diagnostics" s.diagnostics]

/-- A place in a file, before what is found there. -/
def place (root file : Path) (line : Nat) : String :=
  "  " ++ Path.display root file ++ ":" ++ toString line ++ "  "

def exportedMark (exported : Bool) : String := if exported then " [exported]" else ""

def importLine (root : Path) (u : UnusedImport) : String :=
  let binding := if u.requested == u.name then u.name else u.requested ++ " as " ++ u.name
  place root u.file u.line ++ binding ++ " from '" ++ u.module ++ "'"

def functionLine (root : Path) (u : UnusedFunction) : String :=
  place root u.file u.line ++ u.name ++ exportedMark u.exported
    ++ " (complexity " ++ toString u.complexity ++ ")"

def componentLine (root : Path) (u : UnusedFunction) : String :=
  place root u.file u.line ++ u.name ++ exportedMark u.exported

def deadLine (root : Path) (d : DeadCode) : String :=
  place root d.file d.line ++ d.kind.label ++ " " ++ d.name

def warningLine (root : Path) (w : ComplexityWarning) : String :=
  place root w.file w.line ++ w.kind.label ++ " " ++ w.name ++ " has complexity "
    ++ toString w.complexity ++ " (threshold " ++ toString w.threshold ++ ")"

def mixedLines (root : Path) (m : MixedFile) : List String :=
  ("  " ++ Path.display root m.file ++ "  " ++ toString m.entityCount ++ " entities in "
      ++ toString m.clusters.length ++ " clusters")
    :: m.clusters.map fun c =>
      "    -> " ++ Path.display root c.suggested ++ ": " ++ ", ".intercalate c.entities

def familyLine (root : Path) (s : SplitFamily) : String :=
  "  " ++ s.word ++ "*  " ++ ", ".intercalate s.entities ++ " across "
    ++ ", ".intercalate (s.files.map (Path.display root))

def cycleLine (c : Cycle) : String := "  [" ++ c.severity.label ++ "] " ++ c.trail

def diagnosticLine (root : Path) (d : Diagnostic) : String :=
  let file := match d.file with
    | some file => Path.display root file ++ "  "
    | none => ""
  "  " ++ file ++ d.kind.description ++ ": " ++ d.message

def render (d : ExportData) : String :=
  let r := d.report
  let root := Path.ofString r.root
  unlines (["CODE ANALYSIS REPORT", "====================", "Root: " ++ r.root, "", "SUMMARY", "-------"]
    ++ summaryRows r.summary ++ [""]
    ++ section_ "UNUSED IMPORTS" r.unusedImports.length (r.unusedImports.map (importLine root))
    ++ section_ "UNUSED FUNCTIONS" r.unusedFunctions.length (r.unusedFunctions.map (functionLine root))
    ++ section_ "UNUSED COMPONENTS" r.unusedComponents.length
      (r.unusedComponents.map (componentLine root))
    ++ section_ "DEAD CODE" r.deadCode.length (r.deadCode.map (deadLine root))
    ++ section_ "COMPLEXITY WARNINGS" r.complexityWarnings.length
      (r.complexityWarnings.map (warningLine root))
    ++ section_ "MIXED LOGIC FILES" r.mixedFiles.length (r.mixedFiles.flatMap (mixedLines root))
    ++ section_ "SPLIT ENTITIES" r.splitFamilies.length (r.splitFamilies.map (familyLine root))
    ++ section_ "DEPENDENCY CYCLES" r.cycles.length (r.cycles.map cycleLine)
    ++ section_ "DIAGNOSTICS" r.diagnostics.length (r.diagnostics.map (diagnosticLine root))
    ++ ["Generated: " ++ d.generatedAt])

end ModuleAtlas.Outline
