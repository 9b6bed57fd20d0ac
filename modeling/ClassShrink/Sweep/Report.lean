import ClassShrink.Keep.Roots
import ClassShrink.Program.Document

/-! # Sweep reports

What a pass removed and what it kept. -/

namespace ClassShrink

structure SweepReport where
  removedCounts : Counts := ⟨0, 0, 0⟩
  retainedCounts : Counts := ⟨0, 0, 0⟩
  emptyClassesRetained : Nat := 0
  /-- Tags dropped because their class was removed. -/
  annotationsStripped : Nat := 0
  roots : Nat := 0
  reached : Nat := 0
  /-- The qualified names of all removed symbols, in ascending order. -/
  removed : List String := []
  ruleFaults : List RuleFault := []
deriving DecidableEq, Repr

namespace RuleFault

def fieldNames : List String :=
  ["rule", "class", "message"]

def ofJson? (value : Json) : Option RuleFault := do
  let fields ← value.fields? fieldNames
  let rule ← Record.required? Json.text? "rule" fields
  let className ← Record.required? Json.text? "class" fields
  let message ← Record.required? Json.text? "message" fields
  some { rule, className, message }

def toJson (fault : RuleFault) : Json :=
  .object
    [("rule", .string fault.rule),
      ("class", .string fault.className),
      ("message", .string fault.message)]

end RuleFault

def Counts.addMember (counts : Counts) : MemberKind → Counts
  | .method => { counts with methods := counts.methods + 1 }
  | .field => { counts with fields := counts.fields + 1 }

namespace SweepReport

/-! ## Counting -/

def removeMember (report : SweepReport) (owner : String) (member : Member) : SweepReport :=
  { report with
    removedCounts := report.removedCounts.addMember member.kind
    removed := report.removed ++ [member.qualifiedName owner] }

def removeClass (report : SweepReport) (declaration : ClassDecl) : SweepReport :=
  let counts := report.removedCounts
  declaration.members.foldl (fun report member => report.removeMember declaration.name member)
    { report with
      removedCounts := { counts with classes := counts.classes + 1 }
      removed := report.removed ++ [declaration.name] }

def retainMember (report : SweepReport) (member : Member) : SweepReport :=
  { report with retainedCounts := report.retainedCounts.addMember member.kind }

def retainClass (report : SweepReport) (members : List Member) : SweepReport :=
  let counts := report.retainedCounts
  { report with
    retainedCounts := { counts with classes := counts.classes + 1 }
    emptyClassesRetained := report.emptyClassesRetained + if members.isEmpty then 1 else 0 }

def stripTag (report : SweepReport) : SweepReport :=
  { report with annotationsStripped := report.annotationsStripped + 1 }

/-! ## Totals -/

def totalRemoved (report : SweepReport) : Nat :=
  report.removedCounts.classes + report.removedCounts.methods + report.removedCounts.fields

/-- The total as reports show it, in the 64 bits that each count has. The counts
of a report that was read may add up to more. -/
def shownTotal (report : SweepReport) : Nat :=
  report.totalRemoved % Nat.pow 2 64

/-! ## Documents -/

def fieldNames : List String :=
  ["classes_removed", "methods_removed", "fields_removed", "classes_retained",
    "methods_retained", "fields_retained", "empty_classes_retained", "annotations_stripped",
    "roots", "reached", "removed", "rule_faults"]

def ofJson? (value : Json) : Option SweepReport := do
  let fields ← value.fields? fieldNames
  let count (name : String) : Option Nat := Record.required? Json.count? name fields
  let removedCounts : Counts :=
    ⟨← count "classes_removed", ← count "methods_removed", ← count "fields_removed"⟩
  let retainedCounts : Counts :=
    ⟨← count "classes_retained", ← count "methods_retained", ← count "fields_retained"⟩
  let emptyClassesRetained ← count "empty_classes_retained"
  let annotationsStripped ← count "annotations_stripped"
  let roots ← count "roots"
  let reached ← count "reached"
  let removed ← Record.optional? Json.dialect.texts? [] "removed" fields
  let ruleFaults ← Record.optional? (Json.dialect.list? RuleFault.ofJson?) [] "rule_faults" fields
  some
    { removedCounts, retainedCounts, emptyClassesRetained, annotationsStripped, roots, reached,
      removed, ruleFaults }

def toJson (report : SweepReport) : Json :=
  .object <|
    [("classes_removed", .ofNat report.removedCounts.classes),
      ("methods_removed", .ofNat report.removedCounts.methods),
      ("fields_removed", .ofNat report.removedCounts.fields),
      ("classes_retained", .ofNat report.retainedCounts.classes),
      ("methods_retained", .ofNat report.retainedCounts.methods),
      ("fields_retained", .ofNat report.retainedCounts.fields),
      ("empty_classes_retained", .ofNat report.emptyClassesRetained),
      ("annotations_stripped", .ofNat report.annotationsStripped),
      ("roots", .ofNat report.roots),
      ("reached", .ofNat report.reached),
      ("removed", .ofTexts report.removed)] ++
      nonemptyField "rule_faults" (report.ruleFaults.map RuleFault.toJson)

end SweepReport

end ClassShrink
