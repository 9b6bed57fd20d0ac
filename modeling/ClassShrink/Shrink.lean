import ClassShrink.Graph.Construction
import ClassShrink.Mark.Basic
import ClassShrink.Sweep.Basic

/-! # Shrink passes

One pass: build the graph of a program, find the roots, mark from them, and
sweep what is not reached. Nothing comes of a pass unless every part succeeds. -/

namespace ClassShrink

def AnalysisConfig.schedule (analysis : AnalysisConfig) : Schedule :=
  if analysis.parallel then .parallel else .sequential analysis.worklist

namespace Shrink

def runWith (config : Config) (extra : List KeepRule) (program : Program) :
    Except ShrinkError Outcome := do
  let graph ← ProgramGraph.build program config.analysis.parallel
  let view := graph.view
  let roots := RootSet.compute view (KeepRule.ofConfig config ++ extra)
  let reached ← view.mark config.analysis.schedule roots.symbols
  let outcome ← graph.sweep reached
  return { outcome with
    report := { outcome.report with roots := roots.size, ruleFaults := roots.faults } }

def run (config : Config) (program : Program) : Except ShrinkError Outcome :=
  runWith config [] program

/-! ## Passes in a row -/

/-- Shrink once for each configuration. A pass works on what the last successful
one left. -/
def passes (program : Program) : List Config → List (Except ShrinkError (Bool × Outcome))
  | [] => []
  | config :: rest =>
      match run config program with
      | .error error => .error error :: passes program rest
      | .ok outcome =>
          .ok (decide (outcome.program = program), outcome) :: passes outcome.program rest

end Shrink

end ClassShrink
