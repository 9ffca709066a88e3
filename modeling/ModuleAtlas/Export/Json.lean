import ModuleAtlas.Document.Written
import ModuleAtlas.Export.Data

/-!
# The report as a JSON document

A document holds texts only. A report with a path that is no text has none.
-/

namespace ModuleAtlas

set_option autoImplicit false

open Document (text number truth texts)

def UnusedImport.document (u : UnusedImport) : Document :=
  .record [("file", text u.file.text), ("name", text u.name), ("importedName", text u.requested),
    ("line", number u.line), ("module", text u.module)]

def UnusedFunction.document (u : UnusedFunction) : Document :=
  .record [("file", text u.file.text), ("name", text u.name), ("line", number u.line),
    ("exported", truth u.exported), ("complexity", number u.complexity)]

def DeadCode.document (d : DeadCode) : Document :=
  .record [("file", text d.file.text), ("name", text d.name), ("kind", text d.kind.label),
    ("line", number d.line), ("exported", truth d.exported)]

def ComplexityWarning.document (w : ComplexityWarning) : Document :=
  .record [("file", text w.file.text), ("name", text w.name), ("kind", text w.kind.label),
    ("line", number w.line), ("complexity", number w.complexity), ("threshold", number w.threshold)]

def Cluster.document (c : Cluster) : Document :=
  .record [("entities", texts c.entities), ("dependencies", texts c.dependencies),
    ("suggestedFile", text c.suggested.text)]

def MixedFile.document (m : MixedFile) : Document :=
  .record [("file", text m.file.text), ("entityCount", number m.entityCount),
    ("clusters", .list (m.clusters.map Cluster.document))]

def SplitFamily.document (s : SplitFamily) : Document :=
  .record [("prefix", text s.word), ("entities", texts s.entities),
    ("files", texts (s.files.map Path.text))]

def Cycle.document (c : Cycle) : Document :=
  .record [("nodes", texts c.files), ("severity", text c.severity.label)]

def Diagnostic.document (d : Diagnostic) : Document :=
  .record ((d.file.map fun p => ("file", text p.text)).toList ++
    [("kind", text d.kind.label), ("message", text d.message)])

def Summary.document (s : Summary) : Document :=
  .record [("filesAnalyzed", number s.files), ("unusedImports", number s.unusedImports),
    ("unusedFunctions", number s.unusedFunctions), ("unusedComponents", number s.unusedComponents),
    ("deadCode", number s.deadCode), ("complexityWarnings", number s.complexityWarnings),
    ("mixedLogicFiles", number s.mixedFiles), ("splitEntities", number s.splitFamilies),
    ("dependencyCycles", number s.cycles), ("diagnostics", number s.diagnostics)]

def Report.document (r : Report) : Document :=
  .record [("root", text r.root), ("generatedAt", text r.generatedAt.full),
    ("summary", r.summary.document),
    ("unusedImports", .list (r.unusedImports.map UnusedImport.document)),
    ("unusedFunctions", .list (r.unusedFunctions.map UnusedFunction.document)),
    ("unusedComponents", .list (r.unusedComponents.map UnusedFunction.document)),
    ("deadCode", .list (r.deadCode.map DeadCode.document)),
    ("complexityWarnings", .list (r.complexityWarnings.map ComplexityWarning.document)),
    ("mixedLogicFiles", .list (r.mixedFiles.map MixedFile.document)),
    ("splitEntities", .list (r.splitFamilies.map SplitFamily.document)),
    ("dependencyCycles", .list (r.cycles.map Cycle.document)),
    ("diagnostics", .list (r.diagnostics.map Diagnostic.document))]

def FileNode.document (n : FileNode) : Document :=
  .record [("kind", text n.kind.label), ("exports", texts n.exports), ("imports", texts n.imports)]

def EdgeRecord.document (e : EdgeRecord) : Document :=
  .record [("from", text e.source), ("to", text e.target), ("symbols", texts e.symbols)]

def Snapshot.document (s : Snapshot) : Document :=
  .record [("nodes", .record (s.nodes.map fun (name, n) => (name, n.document))),
    ("edges", .list (s.edges.map EdgeRecord.document))]

/-- The paths that the document of a report shows. -/
def Report.paths (r : Report) : List Path :=
  r.unusedImports.map UnusedImport.file ++ (r.unusedFunctions ++ r.unusedComponents).map UnusedFunction.file
    ++ r.deadCode.map DeadCode.file ++ r.complexityWarnings.map ComplexityWarning.file
    ++ r.mixedFiles.flatMap (fun m => m.file :: m.clusters.map Cluster.suggested)
    ++ r.splitFamilies.flatMap SplitFamily.files ++ r.diagnostics.filterMap Diagnostic.file

namespace JsonExport

def cycle (c : Cycle) : Document :=
  .record [("files", texts c.files), ("path", text c.trail), ("severity", text c.severity.label)]

def document (d : ExportData) : Document :=
  .record [("generatedAt", text d.generatedAt), ("root", text d.report.root),
    ("analysis", d.report.document), ("graph", d.graph.document),
    ("cycles", .list (d.report.cycles.map cycle))]

def render (d : ExportData) : Option String :=
  if d.report.paths.all Path.isText then some ((document d).written ++ "\n") else none

end JsonExport

end ModuleAtlas
