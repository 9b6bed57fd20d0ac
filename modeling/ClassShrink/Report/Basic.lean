import ClassShrink.FileTree
import ClassShrink.Json.Layout
import ClassShrink.Report.Terminal

/-! # Reports

A sweep report goes out as text for a terminal or as a JSON document, and the
document either to the output or into a file. -/

namespace ClassShrink

inductive ReportFormat where
  | terminal
  | json
deriving DecidableEq, Repr

namespace ReportFormat

def ofName? (name : String) : Option ReportFormat :=
  match String.ofList (name.toList.map Char.toLower) with
  | "terminal" | "text" => some .terminal
  | "json" => some .json
  | _ => none

end ReportFormat

namespace SweepReport

private def countsJson (counts : Counts) : Json :=
  .object
    [("classes", .ofNat counts.classes),
      ("methods", .ofNat counts.methods),
      ("fields", .ofNat counts.fields)]

def document (report : SweepReport) : Json :=
  .object
    [("version", .string "1.0"),
      ("total_removed", .ofNat report.shownTotal),
      ("removed", countsJson report.removedCounts),
      ("retained", countsJson report.retainedCounts),
      ("empty_classes_retained", .ofNat report.emptyClassesRetained),
      ("annotations_stripped", .ofNat report.annotationsStripped),
      ("roots", .ofNat report.roots),
      ("reached", .ofNat report.reached),
      ("symbols", .ofTexts report.removed),
      ("rule_faults", .array (report.ruleFaults.map RuleFault.toJson))]

end SweepReport

structure Reporter where
  format : ReportFormat
  path? : Option String := none
  symbols : Bool := true
  color : Bool := false
deriving DecidableEq, Repr

namespace Reporter

def report (reporter : Reporter) (tree : FileTree) (report : SweepReport) :
    Except FileError (String × FileTree) :=
  match reporter.format, reporter.path? with
  | .terminal, _ => .ok (report.terminalText reporter.color reporter.symbols, tree)
  | .json, none => .ok (report.document.pretty ++ "\n", tree)
  | .json, some path =>
      match tree.write path report.document.pretty with
      | .ok tree => .ok ("Report written to: " ++ path ++ "\n", tree)
      | .error error => .error error

end Reporter

end ClassShrink
