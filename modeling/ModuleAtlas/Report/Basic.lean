import ModuleAtlas.Graph.Cycle
import ModuleAtlas.Program.Cluster
import ModuleAtlas.Program.Family
import ModuleAtlas.Program.Unused
import ModuleAtlas.Report.Timestamp

/-!
# Reports

Everything that is found in a program: by path, and within a file by place.
-/

namespace ModuleAtlas

set_option autoImplicit false

structure Summary where
  files : Nat
  unusedImports : Nat
  unusedFunctions : Nat
  unusedComponents : Nat
  deadCode : Nat
  complexityWarnings : Nat
  mixedFiles : Nat
  splitFamilies : Nat
  cycles : Nat
  diagnostics : Nat
  deriving DecidableEq, Repr, Inhabited

structure Report where
  root : String
  generatedAt : Timestamp
  summary : Summary
  unusedImports : List UnusedImport
  unusedFunctions : List UnusedFunction
  unusedComponents : List UnusedFunction
  deadCode : List DeadCode
  complexityWarnings : List ComplexityWarning
  mixedFiles : List MixedFile
  splitFamilies : List SplitFamily
  cycles : List Cycle
  diagnostics : List Diagnostic
  deriving DecidableEq, Repr, Inhabited

structure Thresholds where
  complexity : Nat
  mixed : Nat
  deriving DecidableEq, Repr, Inhabited

/-- A program with what is derived from it. -/
structure Session where
  program : Program
  usage : UsageIndex
  graph : FileGraph
  thresholds : Thresholds

namespace Session

def ofProgram (thresholds : Thresholds) (p : Program) : Session :=
  ⟨p, p.usage, .ofProgram p, thresholds⟩

def report (s : Session) (generatedAt : Timestamp) : Report :=
  let files := s.program.files
  let unusedImports := files.flatMap SourceFile.unusedImports
  let unusedFunctions := files.flatMap (SourceFile.unusedFunctions s.usage)
  let unusedComponents := files.flatMap (SourceFile.unusedComponents s.usage)
  let deadCode := files.flatMap (SourceFile.deadCode s.usage)
  let complexityWarnings := files.flatMap (SourceFile.complexityWarnings s.thresholds.complexity)
  let mixedFiles := files.filterMap (SourceFile.mixed? s.thresholds.mixed)
  let splitFamilies := s.program.splitFamilies
  let cycles := s.graph.cycles
  let diagnostics := s.program.diagnostics ++ files.flatMap SourceFile.duplicateDeclarations
  { root := s.program.root.text
    generatedAt, unusedImports, unusedFunctions, unusedComponents, deadCode, complexityWarnings
    mixedFiles, splitFamilies, cycles, diagnostics
    summary :=
      { files := files.length
        unusedImports := unusedImports.length
        unusedFunctions := unusedFunctions.length
        unusedComponents := unusedComponents.length
        deadCode := deadCode.length
        complexityWarnings := complexityWarnings.length
        mixedFiles := mixedFiles.length
        splitFamilies := splitFamilies.length
        cycles := cycles.length
        diagnostics := diagnostics.length } }

end Session

end ModuleAtlas
