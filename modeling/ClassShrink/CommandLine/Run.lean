import ClassShrink.CommandLine.Arguments
import ClassShrink.Config.Load
import ClassShrink.Program.Document
import ClassShrink.Shrink.Log

/-! # Runs

What a command line does with the files it finds. A run ends with the first
thing that goes wrong; files written before that stay. -/

namespace ClassShrink

inductive RunError where
  | config (error : ConfigError)
  | keepRule (rule : String)
  | reportFormat (name : String)
  | unreadableProgram (path : String)
  | invalidProgram (path : String)
  | shrink (error : ShrinkError)
  | unwritableOutput (path : String)
  | report (error : FileError)
deriving DecidableEq, Repr

namespace RunError

def message : RunError → String
  | .config error => error.message
  | .keepRule rule => KeepPattern.refusal rule
  | .reportFormat name => s!"Unknown report format '{name}' in configuration"
  | .unreadableProgram path => "Failed to read program: " ++ path
  | .invalidProgram path => "Failed to parse program model: " ++ path
  | .shrink error => s!"Shrink failed in {error.stage.name} stage"
  | .unwritableOutput path => "Failed to write output: " ++ path
  | .report error => error.message

def cause? : RunError → Option ShrinkError
  | .shrink error => some error
  | _ => none

end RunError

structure RunResult where
  tree : FileTree
  stdout : String := ""
  stderr : String := ""
  log : List LogLine := []
  failure? : Option RunError := none
deriving DecidableEq, Repr

def RunResult.exitCode (result : RunResult) : Nat :=
  if result.failure?.isSome then 1 else 0

namespace Arguments

/-! ## Preparation -/

/-- The directory where a configuration is looked for: that of the input. -/
def directory (arguments : Arguments) : String :=
  match FileTree.parent arguments.input with
  | "" => "."
  | directory => directory

def parseKeep (rule : String) : Except RunError KeepPattern :=
  match KeepPattern.parse? rule with
  | some pattern => .ok pattern
  | none => .error (.keepRule rule)

def configure (arguments : Arguments) (tree : FileTree) : Except RunError Config := do
  let config ← (match arguments.config? with
    | some path => Config.load tree path
    | none => Config.loadUsual tree arguments.directory).mapError .config
  let keep ← arguments.keep.mapM parseKeep
  return { config with
    keep := config.keep ++ keep
    keepAnnotations := config.keepAnnotations ++ arguments.keepAnnotations
    entryPoints := config.entryPoints ++ arguments.entryPoints
    analysis :=
      { parallel := config.analysis.parallel || arguments.has .parallel
        worklist :=
          if arguments.has .breadthFirst then .breadthFirst else config.analysis.worklist } }

def reportFormat (arguments : Arguments) (config : Config) : Except RunError ReportFormat :=
  match arguments.format?.or (ReportFormat.ofName? config.reportFormat) with
  | some format => .ok format
  | none => .error (.reportFormat config.reportFormat)

def readProgram (arguments : Arguments) (tree : FileTree) : Except RunError Program :=
  match tree.read arguments.input with
  | .error _ => .error (.unreadableProgram arguments.input)
  | .ok text =>
      match Program.parse? text with
      | some program => .ok program
      | none => .error (.invalidProgram arguments.input)

/-- The paths that a run may look at or write to. -/
def touchedPaths (arguments : Arguments) : List String :=
  let configs :=
    match arguments.config? with
    | some path => [path]
    | none => Config.usualNames.map (FileTree.join arguments.directory)
  arguments.input :: configs ++ arguments.output?.toList ++ arguments.report?.toList

/-! ## Output -/

def warning (arguments : Arguments) (config : Config) (color : Bool) : String :=
  if config.hasKeepRules || arguments.has .quiet then ""
  else
    (({ color? := some .yellow } : Style).paint color
      "Warning: no keep rules configured, everything will be removed") ++ "\n"

def loadedLine (arguments : Arguments) (program : Program) : LogLine :=
  let counts := program.counts
  ⟨.info, s!"Loaded {counts.classes} classes, {counts.methods} methods, " ++
    s!"{counts.fields} fields from {arguments.input}"⟩

def writeProgram (arguments : Arguments) (tree : FileTree) (program : Program) :
    Except RunError (FileTree × LogLine) :=
  match arguments.output? with
  | none => .ok (tree, ⟨.info, "Dry run, no output written"⟩)
  | some path =>
      match tree.write path program.toJson.pretty with
      | .ok tree => .ok (tree, ⟨.info, "Shrunk program written to " ++ path⟩)
      | .error _ => .error (.unwritableOutput path)

def finish (arguments : Arguments) (format : ReportFormat) (color : Bool) (outcome : Outcome)
    (result : RunResult) : RunResult :=
  match arguments.writeProgram result.tree outcome.program with
  | .error error => { result with failure? := some error }
  | .ok (tree, line) =>
      let result := { result with tree, log := result.log ++ [line] }
      let reporter : Reporter :=
        { format, path? := arguments.report?, symbols := !arguments.has .summary, color }
      match reporter.report tree outcome.report with
      | .error error => { result with failure? := some (.report error) }
      | .ok (stdout, tree) => { result with stdout, tree }

/-! ## Runs -/

def prepare (arguments : Arguments) (tree : FileTree) :
    Except RunError (Config × ReportFormat × Program) := do
  let config ← arguments.configure tree
  let format ← arguments.reportFormat config
  let program ← arguments.readProgram tree
  return (config, format, program)

def run (arguments : Arguments) (tree : FileTree) (color : Bool) : RunResult :=
  match arguments.prepare tree with
  | .error error => { tree, failure? := some error }
  | .ok (config, format, program) =>
      let result : RunResult :=
        { tree
          stderr := arguments.warning config color
          log := arguments.loadedLine program :: Shrink.log config program }
      match Shrink.run config program with
      | .error error => { result with failure? := some (.shrink error) }
      | .ok outcome => arguments.finish format color outcome result

end Arguments

end ClassShrink
