import ModuleAtlas.Export.Drawing
import ModuleAtlas.Proofs.Graph.Cycles
import ModuleAtlas.Proofs.Graph.Loop
import ModuleAtlas.Proofs.Graph.OfProgram
import Mathlib.Data.List.Permutation

/-!
# Files marked as cyclic

An export marks the files of the cycles that were found. They all lie on import cycles, and on
every import cycle there is an import between two marked files. A cycle is marked as a whole if
it has no branch; a file of a cycle with branches may stay unmarked.
-/

namespace ModuleAtlas

open Relation Walk

set_option autoImplicit false

namespace FileGraph

variable {g : FileGraph}

theorem Built.loop_of_found (h : g.Built) {c : List Nat}
    (hc : c ∈ Search.cycles g.successors g.nodes.size) : Loop g.Imports c := by
  have hLoop := Search.loop_of_mem_cycles h.successors_lt g.successors_nodup hc
  rwa [successors_rel] at hLoop

theorem Built.exists_closes (h : g.Built) {c : List Nat} (hc : Loop g.Imports c) :
    ∃ v ∈ c, ∃ w ∈ c, g.Imports v w ∧ ∃ d ∈ Search.cycles g.successors g.nodes.size, Closes d v w := by
  by_contra hNone
  -- otherwise the loop is left when all imports are taken away that close a cycle
  have hKept : Loop (Kept g.Imports (Search.cycles g.successors g.nodes.size)) c :=
    hc.imp_of_mem fun v hv w hw hvw =>
      ⟨hvw, fun d hd hClose => hNone ⟨v, hv, w, hw, hvw, d, hd, hClose⟩⟩
  obtain ⟨v, hv⟩ := hKept.exists_transGen
  rw [← successors_rel] at hv
  exact Search.not_transGen_kept h.successors_lt g.successors_nodup v hv

/-- A name is shown for some file of a cycle that the search finds. -/
def Found (g : FileGraph) (name : String) : Prop := ∃ c ∈ g.cycles, name ∈ c.files

theorem found_iff {name : String} : g.Found name ↔
    ∃ c ∈ Search.cycles g.successors g.nodes.size, ∃ v ∈ c, g.display (g.pathAt v) = name := by
  simp [Found, cycles, Cycle.ofFiles]

theorem found_of_mem {c : List Nat} (hc : c ∈ Search.cycles g.successors g.nodes.size) {v : Nat}
    (hv : v ∈ c) : g.Found (g.display (g.pathAt v)) :=
  found_iff.mpr ⟨c, hc, v, hv, rfl⟩

theorem Built.exists_cyclic_of_found (h : g.Built) {name : String} (hName : g.Found name) :
    ∃ p ∈ g.filesInCycles, g.display p = name := by
  obtain ⟨c, hc, v, hv, rfl⟩ := found_iff.mp hName
  exact ⟨_, (h.mem_filesInCycles_iff _).mpr ⟨v, (h.loop_of_found hc).transGen hv, rfl⟩, rfl⟩

theorem Built.exists_found_of_loop (h : g.Built) {c : List Nat} (hc : Loop g.Imports c) :
    ∃ v ∈ c, ∃ w ∈ c, g.Imports v w ∧ g.Found (g.display (g.pathAt v)) ∧
      g.Found (g.display (g.pathAt w)) := by
  obtain ⟨v, hv, w, hw, hvw, d, hd, hLast, hHead⟩ := h.exists_closes hc
  exact ⟨v, hv, w, hw, hvw, found_of_mem hd (List.mem_of_getLast? hLast),
    found_of_mem hd (List.mem_of_head? hHead)⟩

theorem Built.exists_found_iff (h : g.Built) : (∃ name, g.Found name) ↔ ∃ p, p ∈ g.filesInCycles := by
  constructor
  · rintro ⟨name, hName⟩
    obtain ⟨p, hp, -⟩ := h.exists_cyclic_of_found hName
    exact ⟨p, hp⟩
  · rintro ⟨p, hp⟩
    obtain ⟨v, hv, -⟩ := (h.mem_filesInCycles_iff p).mp hp
    obtain ⟨c, hc, -⟩ := exists_loop_of_transGen hv
    obtain ⟨u, -, w, -, -, hu, -⟩ := h.exists_found_of_loop hc
    exact ⟨_, hu⟩

theorem Built.found_of_unbranched (h : g.Built) {c : List Nat} (hc : Loop g.Imports c)
    (hUnbranched : Unbranched g.Imports c) {v : Nat} (hv : v ∈ c) : g.Found (g.display (g.pathAt v)) := by
  obtain ⟨u, hu, w, hw, -, d, hd, hClose⟩ := h.exists_closes hc
  have hSubset := hc.subset_of_unbranched hUnbranched (h.loop_of_found hd) hw (List.mem_of_head? hClose.2)
  exact found_of_mem hd (hSubset hv)

end FileGraph

namespace ExportData

theorem mem_cyclicFiles {d : ExportData} {name : String} :
    name ∈ d.cyclicFiles ↔ ∃ c ∈ d.report.cycles, name ∈ c.files := by
  rw [cyclicFiles, Text.mem_setOf, List.mem_flatMap]

theorem isCyclic_iff {d : ExportData} {name : String} : d.isCyclic name = true ↔ name ∈ d.cyclicFiles := by
  simp [isCyclic, mem_cyclicFiles]

section Lines

variable {d : ExportData} {name : String} {n : FileNode}

theorem red_border_iff :
    (", color=" ++ Dot.quote "#e53935" ++ "];").toList <:+ (Dot.nodeLine d name n).toList ↔
      d.isCyclic name = true := by
  have hLine : (Dot.nodeLine d name n).toList =
      ("  " ++ Dot.quote name ++ " [kind=" ++ Dot.quote n.kind.label ++ ", style=filled, fillcolor="
        ++ Dot.quote (Dot.fill n.kind)).toList ++
      (", color=" ++ Dot.quote (Dot.border (d.isCyclic name)) ++ "];").toList := by
    simp only [Dot.nodeLine, String.toList_append, List.append_assoc]
  rw [hLine]
  cases d.isCyclic name with
  | true => exact iff_of_true (List.suffix_append _ _) rfl
  | false =>
    refine iff_of_false (fun hRed => ?_) (by decide)
    -- both colours are equally long, so the ends of the line would be equal
    have hEnd := List.suffix_of_suffix_length_le hRed (List.suffix_append _ _) (by decide)
    exact absurd (hEnd.eq_of_length (by decide)) (by decide)

theorem cyclic_class_iff {i : Nat} :
    (Mermaid.nodeLines d i (name, n))[1]? = some ("  class " ++ Mermaid.nodeName i ++ " cyclic") ↔
      d.isCyclic name = true := by
  have hLine : "  class " ++ Mermaid.nodeName i ++ " " ++ "cyclic" =
      "  class " ++ Mermaid.nodeName i ++ " cyclic" := String.append_assoc
  have hClass : Mermaid.className d name n = "cyclic" ↔ d.isCyclic name = true := by
    rw [Mermaid.className]
    cases d.isCyclic name <;> cases n.kind <;> decide
  rw [← hLine, ← hClass]
  simp [Mermaid.nodeLines]

end Lines

/-- How the marked names of an export show in the lines of their nodes. -/
structure ShowsMarks (d : ExportData) : Prop where
  graphMl : ∀ name n, (GraphMl.nodeLines d name n)[3]? =
    some (GraphMl.dataLine "inCycle" (if name ∈ d.cyclicFiles then "true" else "false"))
  dot : ∀ name n, (", color=" ++ Dot.quote "#e53935" ++ "];").toList <:+ (Dot.nodeLine d name n).toList ↔
    name ∈ d.cyclicFiles
  mermaid : ∀ name n i, (Mermaid.nodeLines d i (name, n))[1]? =
    some ("  class " ++ Mermaid.nodeName i ++ " cyclic") ↔ name ∈ d.cyclicFiles

theorem showsMarks (d : ExportData) : d.ShowsMarks where
  graphMl name n := by
    simp only [GraphMl.nodeLines, isCyclic_iff]
    rfl
  dot name n := red_border_iff.trans isCyclic_iff
  mermaid name n i := cyclic_class_iff.trans isCyclic_iff

/-- What the marks of an export say about the graph it is made from. -/
structure MarksMeetCycles (d : ExportData) (g : FileGraph) : Prop extends d.ShowsMarks where
  ordered : d.cyclicFiles.Pairwise (· < ·)
  marked_iff : ∀ name, name ∈ d.cyclicFiles ↔ ∃ c ∈ g.cycles, name ∈ c.files
  cyclic : ∀ name ∈ d.cyclicFiles, ∃ p ∈ g.filesInCycles, g.display p = name
  crossed : ∀ c, Loop g.Imports c → ∃ v ∈ c, ∃ w ∈ c, g.Imports v w ∧
    g.display (g.pathAt v) ∈ d.cyclicFiles ∧ g.display (g.pathAt w) ∈ d.cyclicFiles
  whole : ∀ c, Loop g.Imports c → Unbranched g.Imports c →
    ∀ v ∈ c, g.display (g.pathAt v) ∈ d.cyclicFiles
  empty_iff : d.cyclicFiles = [] ↔ g.filesInCycles = []
  /-- Without branches on cycles the marks are complete. -/
  complete : (∀ c, Loop g.Imports c → Unbranched g.Imports c) →
    ∀ name, name ∈ d.cyclicFiles ↔ ∃ p ∈ g.filesInCycles, g.display p = name

/-- The files that an export marks lie on import cycles and meet each of them. -/
theorem marks_meet_cycles (p : Program) (thresholds : Thresholds) (generatedAt : Timestamp) :
    (ofSession (.ofProgram thresholds p) generatedAt).MarksMeetCycles (.ofProgram p) := by
  have hBuilt := FileGraph.ofProgram_built p
  have hMarked : ∀ name, name ∈ (ofSession (.ofProgram thresholds p) generatedAt).cyclicFiles ↔
      (FileGraph.ofProgram p).Found name := fun name => mem_cyclicFiles
  have hShows := (ofSession (.ofProgram thresholds p) generatedAt).showsMarks
  have hOrdered : (ofSession (.ofProgram thresholds p) generatedAt).cyclicFiles.Pairwise (· < ·) :=
    Text.setOf_pairwise _
  generalize ofSession (.ofProgram thresholds p) generatedAt = d at *
  generalize FileGraph.ofProgram p = g at *
  have hWhole : ∀ c, Loop g.Imports c → Unbranched g.Imports c →
      ∀ v ∈ c, g.display (g.pathAt v) ∈ d.cyclicFiles := fun c hc hUnbranched v hv =>
    (hMarked _).mpr (hBuilt.found_of_unbranched hc hUnbranched hv)
  refine ⟨hShows, hOrdered, hMarked, ?cyclic, ?crossed, hWhole, ?empty_iff, ?complete⟩
  case cyclic => exact fun name hName => hBuilt.exists_cyclic_of_found ((hMarked name).mp hName)
  case crossed =>
    intro c hc
    simp only [hMarked]
    exact hBuilt.exists_found_of_loop hc
  case empty_iff =>
    rw [List.eq_nil_iff_forall_not_mem, List.eq_nil_iff_forall_not_mem, ← not_exists, ← not_exists]
    simp only [hMarked, hBuilt.exists_found_iff]
  case complete =>
    intro hUnbranched name
    refine ⟨fun hName => hBuilt.exists_cyclic_of_found ((hMarked name).mp hName), ?_⟩
    rintro ⟨path, hPath, rfl⟩
    obtain ⟨v, hv, rfl⟩ := (hBuilt.mem_filesInCycles_iff path).mp hPath
    obtain ⟨c, hc, hvc⟩ := exists_loop_of_transGen hv
    exact hWhole c hc (hUnbranched c hc) v hvc

/-- The third file leads back to the first only through the second, which the search has left by then. -/
def bypass : Program :=
  .ofSources (.ofString "/app")
    ([(.ofString "/app/a.ts", "import './b';\nimport './c';\n"), (.ofString "/app/b.ts", "import './a';\n"),
      (.ofString "/app/c.ts", "import './b';\n")].map fun t => (t.1, .ofString t.2)) []

def bypassGraph : FileGraph where
  root := ⟨true, ["app"]⟩
  nodes := #[⟨⟨true, ["app", "a.ts"]⟩, .plain, [], ["./b", "./c"]⟩,
    ⟨⟨true, ["app", "b.ts"]⟩, .plain, [], ["./a"]⟩, ⟨⟨true, ["app", "c.ts"]⟩, .plain, [], ["./b"]⟩]
  numbers := [(⟨true, ["app", "a.ts"]⟩, 0), (⟨true, ["app", "b.ts"]⟩, 1), (⟨true, ["app", "c.ts"]⟩, 2)]
  edges := [⟨0, 1, []⟩, ⟨0, 2, []⟩, ⟨1, 0, []⟩, ⟨2, 1, []⟩]

set_option maxRecDepth 100000 in
theorem ofProgram_bypass : FileGraph.ofProgram bypass = bypassGraph := by
  have hFields : (FileGraph.ofProgram bypass).root = bypassGraph.root ∧
      (FileGraph.ofProgram bypass).nodes = bypassGraph.nodes ∧
      (FileGraph.ofProgram bypass).numbers = bypassGraph.numbers ∧
      (FileGraph.ofProgram bypass).edges = bypassGraph.edges := by decide +kernel
  cases hGraph : FileGraph.ofProgram bypass
  rw [hGraph] at hFields
  obtain ⟨rfl, rfl, rfl, rfl⟩ := hFields
  rfl

theorem successors_bypassGraph : bypassGraph.successors = fun v => [[1, 2], [0], [1]].getD v [] := by
  funext v
  rcases v with _ | _ | _ | v <;> apply FileGraph.successors_eq <;> simp [bypassGraph]

theorem bypass_unmarked : bypass.Read ∧ ∀ thresholds generatedAt,
    (ofSession (.ofProgram thresholds bypass) generatedAt).cyclicFiles = ["a.ts", "b.ts"] ∧
    (FileGraph.ofProgram bypass).filesInCycles.map (FileGraph.ofProgram bypass).display =
      ["a.ts", "b.ts", "c.ts"] ∧
    ¬ ∀ name, name ∈ (ofSession (.ofProgram thresholds bypass) generatedAt).cyclicFiles ↔
      ∃ p ∈ (FileGraph.ofProgram bypass).filesInCycles, (FileGraph.ofProgram bypass).display p = name := by
  have hSize : bypassGraph.nodes.size = 3 := rfl
  have hCyclic : (FileGraph.ofProgram bypass).filesInCycles.map (FileGraph.ofProgram bypass).display =
      ["a.ts", "b.ts", "c.ts"] := by
    have hNodes : bypassGraph.cyclicNodes = [0, 2, 1] := by
      rw [FileGraph.cyclicNodes, successors_bypassGraph, hSize]
      cbv
    have hOrder : bypassGraph.filesInCycles = [0, 1, 2].map bypassGraph.pathAt := by
      have hFirst : (bypassGraph.pathAt 0).le (bypassGraph.pathAt 1) = true := by decide +kernel
      have hThird : (bypassGraph.pathAt 0).le (bypassGraph.pathAt 2) = true := by decide +kernel
      have hBack : (bypassGraph.pathAt 2).le (bypassGraph.pathAt 1) = false := by decide +kernel
      simp [FileGraph.filesInCycles, hNodes, List.mergeSort, hFirst, hThird, hBack]
    rw [ofProgram_bypass, hOrder]
    decide +kernel
  have hFound : Text.setOf ((FileGraph.ofProgram bypass).cycles.flatMap Cycle.files) = ["a.ts", "b.ts"] := by
    have hLoops : Search.cycles bypassGraph.successors bypassGraph.nodes.size = [[0, 1]] := by
      rw [successors_bypassGraph, hSize]
      cbv
    have hFiles : bypassGraph.cycles.flatMap Cycle.files = ["a.ts", "b.ts"] := by
      rw [FileGraph.cycles, hLoops]
      decide +kernel
    rw [ofProgram_bypass, hFiles]
    cbv
  refine ⟨Program.read_ofSources _ _ _, fun thresholds generatedAt => ?_⟩
  have hMarked : (ofSession (.ofProgram thresholds bypass) generatedAt).cyclicFiles = ["a.ts", "b.ts"] := hFound
  refine ⟨hMarked, hCyclic, fun hAll => ?_⟩
  have hThird : "c.ts" ∈ ["a.ts", "b.ts"] := by
    rw [← hMarked, hAll, ← List.mem_map, hCyclic]
    decide
  revert hThird
  decide

end ExportData

end ModuleAtlas
