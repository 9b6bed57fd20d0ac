import ClassShrink.Report.Basic

/-! # Arguments of the command line

Options stand before, between or after the input. One argument at a time is
pending: an option that waits for its value, or a value that is taken but not
yet checked. It is settled when the next one begins, so that of two faults the
earlier one is told, unless an argument is unknown. -/

namespace ClassShrink

/-- Why the arguments do not make a run. To ask for help or for the version is
one of the reasons. -/
inductive UsageError where
  | missingInput
  | unknownArgument
  | invalidValue
  | repeatedArgument
  | surplusValue
  | helpWanted
  | versionWanted
deriving DecidableEq, Repr

def UsageError.exitCode : UsageError → Nat
  | .helpWanted | .versionWanted => 0
  | _ => 2

/-! ## Options -/

inductive Flag where
  | parallel
  | breadthFirst
  | summary
  | verbose
  | quiet
  | help
  | version
deriving DecidableEq, Repr

inductive ValueOption where
  | config
  | output
  | format
  | report
  | keep
  | keepMarker
  | entryPoint
deriving DecidableEq, Repr

inductive Switch where
  | flag (flag : Flag)
  | value (option : ValueOption)
deriving DecidableEq, Repr

namespace Switch

def ofName? : String → Option Switch
  | "parallel" => some (.flag .parallel)
  | "bfs" => some (.flag .breadthFirst)
  | "summary" => some (.flag .summary)
  | "verbose" => some (.flag .verbose)
  | "quiet" => some (.flag .quiet)
  | "help" => some (.flag .help)
  | "version" => some (.flag .version)
  | "config" => some (.value .config)
  | "output" => some (.value .output)
  | "format" => some (.value .format)
  | "report" => some (.value .report)
  | "keep" => some (.value .keep)
  | "keep-annotation" => some (.value .keepMarker)
  | "entry-point" => some (.value .entryPoint)
  | _ => none

def ofLetter? : Char → Option Switch
  | 'v' => some (.flag .verbose)
  | 'q' => some (.flag .quiet)
  | 'h' => some (.flag .help)
  | 'V' => some (.flag .version)
  | 'c' => some (.value .config)
  | 'o' => some (.value .output)
  | 'f' => some (.value .format)
  | _ => none

end Switch

/-! ## What the arguments say -/

structure Arguments where
  input : String
  config? : Option String := none
  output? : Option String := none
  format? : Option ReportFormat := none
  report? : Option String := none
  keep : List String := []
  keepAnnotations : List String := []
  entryPoints : List String := []
  flags : List Flag := []
deriving DecidableEq, Repr

namespace Arguments

def has (arguments : Arguments) (flag : Flag) : Bool :=
  arguments.flags.contains flag

def once {α : Type} (present : Option α) (value? : Option α) : Except UsageError (Option α) :=
  if present.isSome then .error .repeatedArgument
  else
    match value? with
    | some value => .ok (some value)
    | none => .error .invalidValue

def path? (value : String) : Option String :=
  if value = "" then none else some value

def formatNamed? : String → Option ReportFormat
  | "terminal" => some .terminal
  | "json" => some .json
  | _ => none

def setValue (arguments : Arguments) (option : ValueOption) (value : String) :
    Except UsageError Arguments :=
  match option with
  | .config => (once arguments.config? (path? value)).map fun config? =>
      { arguments with config? }
  | .output => (once arguments.output? (path? value)).map fun output? =>
      { arguments with output? }
  | .format => (once arguments.format? (formatNamed? value)).map fun format? =>
      { arguments with format? }
  | .report => (once arguments.report? (path? value)).map fun report? =>
      { arguments with report? }
  | .keep => .ok { arguments with keep := arguments.keep ++ [value] }
  | .keepMarker =>
      .ok { arguments with keepAnnotations := arguments.keepAnnotations ++ [value] }
  | .entryPoint => .ok { arguments with entryPoints := arguments.entryPoints ++ [value] }

def setFlag (arguments : Arguments) (flag : Flag) : Except UsageError Arguments :=
  match flag with
  | .help => .error .helpWanted
  | .version => .error .versionWanted
  | flag =>
      if arguments.has flag then .error .repeatedArgument
      else .ok { arguments with flags := flag :: arguments.flags }

/-! ## Reading -/

inductive Pending where
  | nothing
  | awaiting (option : ValueOption)
  | value (option : ValueOption) (value : String)
  | input (value : String)
deriving DecidableEq, Repr

/-- Arguments so far; `input` is empty until it is settled. `positionals` tells
that from here on everything is a positional argument. -/
structure Reading where
  arguments : Arguments := { input := "" }
  pending : Pending := .nothing
  inputSeen : Bool := false
  positionals : Bool := false
deriving DecidableEq, Repr

namespace Reading

def settle (reading : Reading) : Except UsageError Reading :=
  match reading.pending with
  | .nothing => .ok reading
  | .awaiting _ => .error .invalidValue
  | .value option value =>
      (reading.arguments.setValue option value).map fun arguments =>
        { reading with arguments, pending := .nothing }
  | .input value =>
      if value = "" then .error .invalidValue
      else .ok
        { reading with
          arguments := { reading.arguments with input := value }
          pending := .nothing }

def flag (reading : Reading) (flag : Flag) : Except UsageError Reading := do
  let reading ← reading.settle
  let arguments ← reading.arguments.setFlag flag
  return { reading with arguments }

def option (reading : Reading) (option : ValueOption) (attached : Option String) :
    Except UsageError Reading := do
  let reading ← reading.settle
  match attached with
  | none => return { reading with pending := .awaiting option }
  | some value =>
      let arguments ← reading.arguments.setValue option value
      return { reading with arguments }

def positional (reading : Reading) (value : String) : Except UsageError Reading :=
  if reading.inputSeen then .error .unknownArgument
  else reading.settle.map fun reading =>
    { reading with pending := .input value, inputSeen := true }

def long (reading : Reading) (name : String) (attached : Option String) :
    Except UsageError Reading :=
  match Switch.ofName? name, attached with
  | none, _ => .error .unknownArgument
  | some (.flag _), some _ => .error .surplusValue
  | some (.flag flag), none => reading.flag flag
  | some (.value option), attached => reading.option option attached

/-- Switches by their letters in one word. An option takes the rest of the word
as its value, if there is any; an equals sign before the value is left out. -/
def letters (reading : Reading) : List Char → Except UsageError Reading
  | [] => .ok reading
  | letter :: rest =>
      match Switch.ofLetter? letter with
      | none => .error .unknownArgument
      | some (.flag flag) =>
          match reading.flag flag with
          | .ok reading => reading.letters rest
          | .error error => .error error
      | some (.value option) =>
          reading.option option <|
            match rest with
            | [] => none
            | '=' :: value => some (String.ofList value)
            | value => some (String.ofList value)

def step (reading : Reading) (argument : String) : Except UsageError Reading :=
  if reading.positionals then reading.positional argument
  else
    match argument.toList with
    | ['-', '-'] => .ok { reading with positionals := true }
    | '-' :: '-' :: name =>
        match Text.cutAtFirst '=' name with
        | some (name, value) => reading.long (String.ofList name) (some (String.ofList value))
        | none => reading.long (String.ofList name) none
    | '-' :: letter :: rest => reading.letters (letter :: rest)
    | _ =>
        match reading.pending with
        | .awaiting option => .ok { reading with pending := .value option argument }
        | _ => reading.positional argument

end Reading

def parse (arguments : List String) : Except UsageError Arguments := do
  let reading ← arguments.foldlM Reading.step {}
  let reading ← reading.settle
  if reading.inputSeen then return reading.arguments else throw .missingInput

end Arguments

end ClassShrink
