import ClassShrink.Config.KeepPattern
import ClassShrink.Worklist

/-! # Configurations

What a shrink pass is asked to keep, and how it is to run and report. -/

namespace ClassShrink

structure AnalysisConfig where
  /-- Whether workers share the building of the graph and the evaluation of keep
  rules, and marking goes in rounds instead of with a worklist. -/
  parallel : Bool := false
  worklist : WorklistOrder := .depthFirst
deriving DecidableEq, Repr

structure Config where
  keep : List KeepPattern := []
  keepAnnotations : List String := []
  entryPoints : List String := []
  analysis : AnalysisConfig := {}
  reportFormat : String := "terminal"
deriving DecidableEq, Repr

namespace Config

def hasKeepRules (config : Config) : Bool :=
  !config.keep.isEmpty || !config.keepAnnotations.isEmpty || !config.entryPoints.isEmpty

end Config

end ClassShrink
