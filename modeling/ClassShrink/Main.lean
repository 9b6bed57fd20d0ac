import ClassShrink.CommandLine.Run

/-! # The command

Looks at the files that a run may touch, lets the run go over what was found, and
writes what it changed. -/

namespace ClassShrink.Command

def helpText : String :=
  "Remove unreachable classes, methods and fields from a program

Usage: deadsweep [OPTIONS] <INPUT>

Arguments:
  <INPUT>  Program model to shrink (JSON)

Options:
  -c, --config <CONFIG>         Path to configuration file
  -o, --output <OUTPUT>         Write the shrunk program here (omit for a dry run)
  -f, --format <FORMAT>         Report format [possible values: terminal, json]
      --report <FILE>           Write the JSON report to a file instead of stdout
      --keep <RULE>             Keep methods of matching classes, as CLASS_SUFFIX:method1,method2
      --keep-annotation <NAME>  Keep classes and members carrying this annotation
      --entry-point <NAME>      Class or member called from outside the program
      --parallel                Build, evaluate rules and mark in parallel
      --bfs                     Drain the worklist breadth-first
      --summary                 Only print counts, not every removed symbol
  -v, --verbose                 Verbose output
  -q, --quiet                   Quiet mode - only output results
  -h, --help                    Print help
  -V, --version                 Print version"

def usageText : UsageError → String
  | .missingInput => "error: the input is missing"
  | .unknownArgument => "error: unexpected argument"
  | .invalidValue => "error: missing or invalid value"
  | .repeatedArgument => "error: an argument is given more than once"
  | .surplusValue => "error: a value where none is taken"
  | .helpWanted => helpText
  | .versionWanted => "deadsweep 0.1.0"

def shows (arguments : Arguments) (line : LogLine) : Bool :=
  !arguments.has .quiet && (arguments.has .verbose || line.level ≠ .debug)

def absoluteParts (home path : String) : List String :=
  let full := if Text.beginsWith path "/" then path else home ++ "/" ++ path
  let parts := (FileTree.pathParts full).foldl (fun parts part =>
    if part = "" ∨ part = "." then parts
    else if part = ".." then parts.drop 1
    else part :: parts) []
  "" :: parts.reverse

def observe (tree : FileTree) (parts : List String) : IO FileTree := do
  let beginnings := FileTree.properBeginnings parts ++ [parts]
  let directories ← beginnings.filterM fun parts =>
    (System.mkFilePath [FileTree.pathText parts]).isDir
  let tree := { tree with directories := tree.directories ++ directories }
  try
    let content ← IO.FS.readFile (FileTree.pathText parts)
    return tree.put parts content
  catch _ => return tree

end ClassShrink.Command

open ClassShrink ClassShrink.Command in
def main (args : List String) : IO UInt32 := do
  let stderr ← IO.getStderr
  match Arguments.parse args with
  | .error error =>
      if error.exitCode = 0 then IO.println (usageText error)
      else stderr.putStrLn (usageText error)
      return error.exitCode.toUInt32
  | .ok arguments =>
      let home := toString (← IO.currentDir)
      let parts := arguments.touchedPaths.map (absoluteParts home)
      let empty : FileTree := { home := absoluteParts home home }
      let tree ← ((absoluteParts home home) :: parts).foldlM observe empty
      let result := arguments.run tree false
      for line in LogLine.written (result.log.filter (shows arguments)) do
        stderr.putStrLn line
      stderr.putStr result.stderr
      for (path, content) in result.tree.changedSince tree do
        IO.FS.writeFile path content
      IO.print result.stdout
      if let some failure := result.failure? then
        stderr.putStrLn ("Error: " ++ failure.message)
        if let some cause := failure.cause? then
          stderr.putStrLn ("  " ++ cause.message)
      return result.exitCode.toUInt32
