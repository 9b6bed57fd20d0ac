import ClassShrink.Graph.Program
import ClassShrink.Sweep.Integrity
import ClassShrink.Sweep.Report

/-! # Sweeping

A program is cut down to a set of reached nodes: classes and members that are
not reached are dropped, and so are annotation tags that name a dropped class.
All else stays as it was, in its order. -/

namespace ClassShrink

structure Outcome where
  program : Program
  report : SweepReport
deriving DecidableEq, Repr

def Outcome.toJson (outcome : Outcome) : Json :=
  .object
    [("program", outcome.program.toJson),
      ("report", outcome.report.toJson),
      ("total_removed", .ofNat outcome.report.totalRemoved)]

namespace ProgramGraph

def namesRemovedClass (graph : ProgramGraph) (reached : List Nat) (tag : String) : Bool :=
  match graph.find? tag with
  | some node => (graph.node node).kind = .classDecl && node ∉ reached
  | none => false

def sweepTags (graph : ProgramGraph) (reached : List Nat) :
    List String → SweepReport → List String × SweepReport
  | [], report => ([], report)
  | tag :: rest, report =>
      if graph.namesRemovedClass reached tag then graph.sweepTags reached rest report.stripTag
      else
        let (live, report) := graph.sweepTags reached rest report
        (tag :: live, report)

def sweepMembers (graph : ProgramGraph) (reached : List Nat) (owner : String) (position : Nat) :
    List (Member × Nat) → SweepReport → List Member × SweepReport
  | [], report => ([], report)
  | (member, index) :: rest, report =>
      if graph.memberNode position index ∈ reached then
        let (annotations, report) :=
          graph.sweepTags reached member.annotations (report.retainMember member)
        let (left, report) := graph.sweepMembers reached owner position rest report
        ({ member with annotations } :: left, report)
      else graph.sweepMembers reached owner position rest (report.removeMember owner member)

def sweepClasses (graph : ProgramGraph) (reached : List Nat) :
    List (ClassDecl × Nat) → SweepReport → List ClassDecl × SweepReport
  | [], report => ([], report)
  | (declaration, position) :: rest, report =>
      if graph.classNode position ∈ reached then
        let (members, report) :=
          graph.sweepMembers reached declaration.name position declaration.members.zipIdx report
        let (annotations, report) :=
          graph.sweepTags reached declaration.annotations (report.retainClass members)
        let (left, report) := graph.sweepClasses reached rest report
        ({ declaration with annotations, members } :: left, report)
      else graph.sweepClasses reached rest (report.removeClass declaration)

def sweep (graph : ProgramGraph) (reached : List Nat) : Except ShrinkError Outcome :=
  match graph.view.violation? reached with
  | some error => .error error
  | none =>
      let (classes, report) :=
        graph.sweepClasses reached graph.program.classes.zipIdx { reached := reached.length }
      .ok { program := { classes }
            report := { report with removed := report.removed.mergeSort textLe } }

end ProgramGraph

end ClassShrink
