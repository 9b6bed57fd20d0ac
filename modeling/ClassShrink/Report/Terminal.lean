import ClassShrink.Report.Listing
import ClassShrink.Report.Style
import ClassShrink.Sweep.Report

/-! # Terminal reports

A report for reading: what was removed, which rules failed, and the counts. -/

namespace ClassShrink.SweepReport

def listingLines (color : Bool) (owner : String) (members : List String) : List String :=
  if members.isEmpty then
    ["  " ++ ({ color? := some .red } : Style).paint color "class" ++ " " ++
      ({ bold := true, color? := some .white } : Style).paint color owner]
  else
    ({ bold := true, color? := some .cyan } : Style).paint color owner ::
      members.map fun member =>
        "    " ++ ({ dimmed := true } : Style).paint color "-" ++ " " ++ member

def removalLines (report : SweepReport) (color symbols : Bool) : List String :=
  if report.shownTotal = 0 then
    [({ bold := true, color? := some .green } : Style).paint color
      "Nothing to remove, every symbol is reachable"]
  else
    let heading := ({ bold := true, color? := some .yellow } : Style).paint color
      s!"Removed {report.shownTotal} symbols:"
    let listing :=
      if symbols then
        (Listing.byClass report.removed).flatMap (fun (owner, members) =>
          listingLines color owner members) ++ [""]
      else []
    heading :: "" :: listing

def faultLines (report : SweepReport) (color : Bool) : List String :=
  if report.ruleFaults.isEmpty then []
  else
    let red : Style := { color? := some .red }
    ({ red with bold := true } : Style).paint color "Keep rule faults:" ::
      report.ruleFaults.map (fun fault => "  " ++ red.paint color "!" ++ " " ++ fault.text) ++ [""]

def countsText (color : Bool) (hue : Color) (counts : Counts) : String :=
  let number (count : Nat) : String :=
    ({ color? := some hue } : Style).paint color (toString count)
  number counts.classes ++ " classes, " ++ number counts.methods ++ " methods, " ++
    number counts.fields ++ " fields"

def summaryLines (report : SweepReport) (color : Bool) : List String :=
  let dim := ({ dimmed := true } : Style).paint color
  let empty := report.emptyClassesRetained
  let stripped := report.annotationsStripped
  [dim (String.ofList (List.replicate 60 '─')),
    "Removed:  " ++ countsText color .red report.removedCounts,
    "Retained: " ++ countsText color .green report.retainedCounts,
    dim s!"{report.roots} roots, {report.reached} symbols reached"] ++
    (if 0 < empty then [dim s!"{empty} retained classes have no members left"] else []) ++
    (if 0 < stripped then [dim s!"{stripped} annotations of removed classes stripped"] else []) ++
    [""]

def terminalText (report : SweepReport) (color symbols : Bool) : String :=
  let lines := "" :: report.removalLines color symbols ++ report.faultLines color ++
    report.summaryLines color
  String.join (lines.map (· ++ "\n"))

end ClassShrink.SweepReport
