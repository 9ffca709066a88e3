import ModuleAtlas.Graph.Snapshot
import ModuleAtlas.Report.Basic

/-!
# What is exported
-/

namespace ModuleAtlas

set_option autoImplicit false

structure ExportData where
  report : Report
  graph : Snapshot
  deriving DecidableEq, Repr, Inhabited

namespace ExportData

def ofSession (s : Session) (generatedAt : Timestamp) : ExportData :=
  ⟨s.report generatedAt, s.graph.snapshot⟩

def generatedAt (d : ExportData) : String := d.report.generatedAt.short

def cyclicFiles (d : ExportData) : List String := Text.setOf (d.report.cycles.flatMap Cycle.files)

def isCyclic (d : ExportData) (file : String) : Bool :=
  d.report.cycles.any fun c => c.files.contains file

end ExportData

def unlines (lines : List String) : String := String.join (lines.map (· ++ "\n"))

end ModuleAtlas
