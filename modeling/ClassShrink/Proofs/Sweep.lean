import ClassShrink.Proofs.Needs
import ClassShrink.Proofs.Sorting
import ClassShrink.Sweep.Basic
import Mathlib.Data.List.Perm.Basic

/-! # The sweep in closed form

A sweep walks the classes and their members once and counts in the branches that it
takes. Its loops come to a program of the reached symbols and to counters that agree
with that program. -/

namespace ClassShrink

open ProgramGraph (ofProgram)

/-! ## Adding up reports -/

namespace Counts

instance : Add Counts where
  add left right :=
    ⟨left.classes + right.classes, left.methods + right.methods, left.fields + right.fields⟩

def ofMembers (members : List Member) : Counts :=
  { classes := 0
    methods := members.countP fun member => member.kind = .method
    fields := members.countP fun member => member.kind = .field }

theorem add_eq (left right : Counts) : left + right =
    ⟨left.classes + right.classes, left.methods + right.methods, left.fields + right.fields⟩ := rfl

theorem add_assoc (first second third : Counts) :
    first + second + third = first + (second + third) := by
  simp only [add_eq, Nat.add_assoc]

@[simp] theorem zero_add (counts : Counts) : ⟨0, 0, 0⟩ + counts = counts := by
  simp only [add_eq, Nat.zero_add]

@[simp] theorem add_zero (counts : Counts) : counts + ⟨0, 0, 0⟩ = counts := rfl

theorem ofMembers_cons (member : Member) (members : List Member) :
    ofMembers (member :: members) = ofMembers [member] + ofMembers members := by
  cases kind : member.kind <;> simp [ofMembers, add_eq, kind, Nat.add_comm]

theorem addMember_eq (counts : Counts) (member : Member) :
    counts.addMember member.kind = counts + ofMembers [member] := by
  cases kind : member.kind <;> simp [addMember, ofMembers, add_eq, kind]

end Counts

namespace SweepReport

def add (report tally : SweepReport) : SweepReport :=
  { report with
    removedCounts := report.removedCounts + tally.removedCounts
    retainedCounts := report.retainedCounts + tally.retainedCounts
    emptyClassesRetained := report.emptyClassesRetained + tally.emptyClassesRetained
    annotationsStripped := report.annotationsStripped + tally.annotationsStripped
    removed := report.removed ++ tally.removed }

theorem add_assoc (report first second : SweepReport) :
    (report.add first).add second = report.add (first.add second) := by
  simp only [add, Counts.add_assoc, Nat.add_assoc, List.append_assoc]

theorem add_empty (report : SweepReport) : report.add {} = report := by
  simp [add]

theorem removeMember_eq (report : SweepReport) (owner : String) (member : Member) :
    report.removeMember owner member = report.add
      { removedCounts := .ofMembers [member], removed := [member.qualifiedName owner] } := by
  simp [removeMember, add, Counts.addMember_eq]

theorem retainMember_eq (report : SweepReport) (member : Member) :
    report.retainMember member = report.add { retainedCounts := .ofMembers [member] } := by
  simp [retainMember, add, Counts.addMember_eq]

theorem retainClass_eq (report : SweepReport) (members : List Member) :
    report.retainClass members = report.add
      { retainedCounts := ⟨1, 0, 0⟩
        emptyClassesRetained := if members.isEmpty then 1 else 0 } := by
  simp [retainClass, add, Counts.add_eq]

theorem stripTag_eq (report : SweepReport) :
    report.stripTag = report.add { annotationsStripped := 1 } := by
  simp [stripTag, add]

theorem foldl_removeMember (report : SweepReport) (owner : String) (members : List Member) :
    members.foldl (fun report member => report.removeMember owner member) report = report.add
      { removedCounts := .ofMembers members, removed := members.map (·.qualifiedName owner) } := by
  induction members generalizing report with
  | nil => exact report.add_empty.symm
  | cons member rest induction =>
      rw [List.foldl_cons, induction, removeMember_eq, add_assoc]
      simp [add, ← Counts.ofMembers_cons]

theorem removeClass_eq (report : SweepReport) (declaration : ClassDecl) :
    report.removeClass declaration = report.add
      { removedCounts := ⟨1, 0, 0⟩ + .ofMembers declaration.members
        removed := declaration.symbolNames } := by
  rw [removeClass, foldl_removeMember]
  simp [add, Counts.add_eq, Nat.add_assoc, ClassDecl.symbolNames]

end SweepReport

/-! ## What is left and what is removed -/

namespace Program

variable (program : Program) (reached : List Nat)

def namesRemovedClass (tag : String) : Bool :=
  match program.position? tag with
  | some position => program.classNode position ∉ reached
  | none => false

def liveTags (tags : List String) : List String :=
  tags.filter fun tag => !program.namesRemovedClass reached tag

def thinMember (member : Member) : Member :=
  { member with annotations := program.liveTags reached member.annotations }

def reachedOf (position : Nat) (entries : List (Member × Nat)) : List Member :=
  (entries.filter fun entry => program.memberNode ⟨position, entry.2⟩ ∈ reached).map Prod.fst

def unreachedOf (position : Nat) (entries : List (Member × Nat)) : List Member :=
  (entries.filter fun entry => program.memberNode ⟨position, entry.2⟩ ∉ reached).map Prod.fst

def reachedMembers (declaration : ClassDecl) (position : Nat) : List Member :=
  program.reachedOf reached position declaration.members.zipIdx

def unreachedMembers (declaration : ClassDecl) (position : Nat) : List Member :=
  program.unreachedOf reached position declaration.members.zipIdx

def memberTally (owner : String) (position : Nat) (entries : List (Member × Nat)) : SweepReport :=
  let retained := program.reachedOf reached position entries
  let removed := program.unreachedOf reached position entries
  { removedCounts := .ofMembers removed
    retainedCounts := .ofMembers retained
    annotationsStripped :=
      (retained.flatMap (·.annotations)).countP (program.namesRemovedClass reached)
    removed := removed.map (·.qualifiedName owner) }

def thinned (declaration : ClassDecl) (position : Nat) : ClassDecl :=
  { declaration with
    annotations := program.liveTags reached declaration.annotations
    members := (program.reachedMembers reached declaration position).map
      (program.thinMember reached) }

section Entries

variable (entries : List (ClassDecl × Nat))

def reachedClasses : List (ClassDecl × Nat) :=
  entries.filter fun entry => program.classNode entry.2 ∈ reached

def unreachedClasses : List ClassDecl :=
  (entries.filter fun entry => program.classNode entry.2 ∉ reached).map Prod.fst

def thinnedClasses : List ClassDecl :=
  (program.reachedClasses reached entries).map fun entry =>
    program.thinned reached entry.1 entry.2

/-- The members that are removed, with the names of their classes: all members of a
removed class, and the unreached members of a retained one. -/
def removedMembers : List (String × Member) :=
  entries.flatMap fun (declaration, position) =>
    let members :=
      if program.classNode position ∈ reached then
        program.unreachedMembers reached declaration position
      else declaration.members
    members.map fun member => (declaration.name, member)

def retainedTags : List String :=
  (program.reachedClasses reached entries).flatMap fun (declaration, position) =>
    declaration.annotations ++
      (program.reachedMembers reached declaration position).flatMap (·.annotations)

def tally : SweepReport :=
  let left := program.thinnedClasses reached entries
  let removedMembers := program.removedMembers reached entries
  { removedCounts :=
      { classes := (program.unreachedClasses reached entries).length
        methods := removedMembers.countP fun entry => entry.2.kind = .method
        fields := removedMembers.countP fun entry => entry.2.kind = .field }
    retainedCounts := Program.counts ⟨left⟩
    emptyClassesRetained := left.countP fun declaration => declaration.members.isEmpty
    annotationsStripped :=
      (program.retainedTags reached entries).countP (program.namesRemovedClass reached)
    removed := entries.flatMap fun (declaration, position) =>
      if program.classNode position ∈ reached then
        (program.unreachedMembers reached declaration position).map
          (·.qualifiedName declaration.name)
      else declaration.symbolNames }

end Entries

def remainder : Program :=
  { classes := program.thinnedClasses reached program.classes.zipIdx }

def removedNames : List String :=
  (program.unreachedClasses reached program.classes.zipIdx).map (·.name) ++
    (program.removedMembers reached program.classes.zipIdx).map fun entry =>
      entry.2.qualifiedName entry.1

def account : SweepReport :=
  { program.tally reached program.classes.zipIdx with
    reached := reached.length
    removed := (program.removedNames reached).mergeSort textLe }

end Program

/-! ## Loops -/

namespace Program

variable {program : Program} {reached : List Nat} {position : Nat} {declaration : ClassDecl}

theorem counts_cons (declaration : ClassDecl) (classes : List ClassDecl) :
    Program.counts ⟨declaration :: classes⟩ =
      ⟨1, 0, 0⟩ + .ofMembers declaration.members + Program.counts ⟨classes⟩ := by
  simp [Program.counts, Program.members, Counts.ofMembers, Counts.add_eq, Nat.add_comm]

theorem ofMembers_map_thinMember (members : List Member) :
    Counts.ofMembers (members.map (program.thinMember reached)) = .ofMembers members := by
  simp only [Counts.ofMembers, List.countP_map]
  rfl

theorem removedCounts_append (classes others : Nat) (owner : String) (members : List Member)
    (rest : List (String × Member)) :
    let removed := members.map (fun member => (owner, member)) ++ rest
    Counts.mk (classes + others) (removed.countP fun entry => entry.2.kind = .method)
        (removed.countP fun entry => entry.2.kind = .field) =
      ⟨classes, 0, 0⟩ + .ofMembers members +
        ⟨others, rest.countP fun entry => entry.2.kind = .method,
          rest.countP fun entry => entry.2.kind = .field⟩ := by
  simp [Counts.ofMembers, Counts.add_eq, List.countP_map, Function.comp_def]

theorem tally_cons_reached (isReached : program.classNode position ∈ reached)
    (entries : List (ClassDecl × Nat)) :
    program.tally reached ((declaration, position) :: entries) =
      (program.memberTally reached declaration.name position declaration.members.zipIdx).add
        (SweepReport.add
          { retainedCounts := ⟨1, 0, 0⟩
            emptyClassesRetained :=
              if ((program.reachedOf reached position declaration.members.zipIdx).map
                (program.thinMember reached)).isEmpty then 1 else 0 }
          (SweepReport.add
            { annotationsStripped :=
                declaration.annotations.countP (program.namesRemovedClass reached) }
            (program.tally reached entries))) := by
  have left : program.thinnedClasses reached ((declaration, position) :: entries) =
      program.thinned reached declaration position :: program.thinnedClasses reached entries := by
    simp [thinnedClasses, reachedClasses, isReached]
  have tags : program.retainedTags reached ((declaration, position) :: entries) =
      declaration.annotations ++
        (program.reachedMembers reached declaration position).flatMap (·.annotations) ++
          program.retainedTags reached entries := by
    simp [retainedTags, reachedClasses, isReached]
  have classes : (program.unreachedClasses reached ((declaration, position) :: entries)).length =
      0 + (program.unreachedClasses reached entries).length := by
    simp [unreachedClasses, isReached]
  have members : program.removedMembers reached ((declaration, position) :: entries) =
      (program.unreachedMembers reached declaration position).map
        (fun member => (declaration.name, member)) ++ program.removedMembers reached entries := by
    simp [removedMembers, isReached]
  simp only [tally, left, tags, classes, members, SweepReport.add, memberTally,
    removedCounts_append, counts_cons, thinned, ofMembers_map_thinMember, reachedMembers,
    unreachedMembers]
  simp only [SweepReport.mk.injEq]
  refine ⟨by simp, ?_, ?_, ?_, by simp, by simp, by simp [isReached], by simp⟩
  · simp only [Counts.add_eq, Counts.mk.injEq]
    omega
  · rw [List.countP_cons, Nat.add_comm, Nat.zero_add, Nat.zero_add]
  · simp only [List.countP_append]
    omega

theorem tally_cons_unreached (unreached : program.classNode position ∉ reached)
    (entries : List (ClassDecl × Nat)) :
    program.tally reached ((declaration, position) :: entries) = SweepReport.add
      { removedCounts := ⟨1, 0, 0⟩ + .ofMembers declaration.members
        removed := declaration.symbolNames }
      (program.tally reached entries) := by
  have left : program.thinnedClasses reached ((declaration, position) :: entries) =
      program.thinnedClasses reached entries := by
    simp [thinnedClasses, reachedClasses, unreached]
  have tags : program.retainedTags reached ((declaration, position) :: entries) =
      program.retainedTags reached entries := by
    simp [retainedTags, reachedClasses, unreached]
  have classes : (program.unreachedClasses reached ((declaration, position) :: entries)).length =
      1 + (program.unreachedClasses reached entries).length := by
    simp [unreachedClasses, unreached, Nat.add_comm]
  have members : program.removedMembers reached ((declaration, position) :: entries) =
      declaration.members.map (fun member => (declaration.name, member)) ++
        program.removedMembers reached entries := by
    simp [removedMembers, unreached]
  simp only [tally, left, tags, classes, members, SweepReport.add, removedCounts_append]
  simp [unreached]

end Program

namespace ProgramGraph

variable {program : Program} {reached : List Nat} {position : Nat} {declaration : ClassDecl}

variable (distinct : program.symbolNames.Nodup)

include distinct

/-- The name index holds members and boundary symbols too, so the kind of what is found
tells whether a tag names a class. -/
theorem namesRemovedClass_eq (tag : String) :
    (ofProgram program).namesRemovedClass reached tag = program.namesRemovedClass reached tag := by
  rw [namesRemovedClass, Program.namesRemovedClass]
  cases found : program.position? tag with
  | some position =>
      rcases (Program.position?_eq_some_iff distinct tag).mp found with ⟨_, declared, rfl⟩
      have placed := nodeNames_getElem? (Program.symbolNames_classNode declared)
      simp [(find?_eq_some_iff distinct).mpr placed, node_classNode declared]
  | none =>
      have external := (Program.position?_eq_none_iff tag).mp found
      cases inIndex : (ofProgram program).find? tag with
      | none => rfl
      | some node =>
          have placed := (find?_eq_some_iff distinct).mp inIndex
          have noClass : ((ofProgram program).node node).kind ≠ .classDecl := by
            intro isClass
            have inside := (view_contains node).mpr (List.getElem?_eq_some_iff.mp placed).1
            rcases exists_class_of_kind inside isClass with ⟨_, declaration, declared, rfl⟩
            have named := nodeNames_getElem? (Program.symbolNames_classNode declared)
            exact external declaration (List.mem_of_getElem? declared)
              (Option.some.inj (named.symm.trans placed))
          simp [noClass]

theorem sweepTags_eq (tags : List String) (report : SweepReport) :
    (ofProgram program).sweepTags reached tags report =
      (program.liveTags reached tags,
        report.add { annotationsStripped := tags.countP (program.namesRemovedClass reached) }) := by
  induction tags generalizing report with
  | nil => exact congrArg _ report.add_empty.symm
  | cons tag rest induction =>
      rw [sweepTags, namesRemovedClass_eq distinct]
      cases removed : program.namesRemovedClass reached tag with
      | true =>
          rw [if_pos rfl, induction, SweepReport.stripTag_eq, SweepReport.add_assoc]
          simp [Program.liveTags, SweepReport.add, removed, Nat.add_comm]
      | false =>
          rw [if_neg Bool.false_ne_true, induction]
          simp [Program.liveTags, removed]

theorem sweepMembers_eq (declared : program.classes[position]? = some declaration)
    {entries : List (Member × Nat)} (report : SweepReport)
    (listed : ∀ entry ∈ entries, declaration.members[entry.2]? = some entry.1) :
    (ofProgram program).sweepMembers reached declaration.name position entries report =
      ((program.reachedOf reached position entries).map (program.thinMember reached),
        report.add (program.memberTally reached declaration.name position entries)) := by
  induction entries generalizing report with
  | nil => exact congrArg _ report.add_empty.symm
  | cons entry others induction =>
      rcases entry with ⟨member, index⟩
      have has := listed _ List.mem_cons_self
      have rest := fun report =>
        induction report fun entry inRest => listed entry (List.mem_cons_of_mem _ inRest)
      rw [sweepMembers, memberNode_eq declared has]
      by_cases isReached : program.memberNode ⟨position, index⟩ ∈ reached
      · rw [if_pos isReached, sweepTags_eq distinct]
        dsimp only
        rw [rest, SweepReport.retainMember_eq, SweepReport.add_assoc, SweepReport.add_assoc]
        simp [Program.memberTally, Program.reachedOf, Program.unreachedOf, isReached,
          Program.thinMember, SweepReport.add, ← Counts.ofMembers_cons]
      · rw [if_neg isReached, rest, SweepReport.removeMember_eq, SweepReport.add_assoc]
        simp [Program.memberTally, Program.reachedOf, Program.unreachedOf, isReached,
          SweepReport.add, ← Counts.ofMembers_cons]

theorem sweepClasses_eq {entries : List (ClassDecl × Nat)} (report : SweepReport)
    (listed : ∀ entry ∈ entries, program.classes[entry.2]? = some entry.1) :
    (ofProgram program).sweepClasses reached entries report =
      (program.thinnedClasses reached entries, report.add (program.tally reached entries)) := by
  induction entries generalizing report with
  | nil => exact congrArg _ report.add_empty.symm
  | cons entry others induction =>
      rcases entry with ⟨declaration, position⟩
      have declared : program.classes[position]? = some declaration := listed _ List.mem_cons_self
      have rest := fun report =>
        induction report fun entry inRest => listed entry (List.mem_cons_of_mem _ inRest)
      rw [sweepClasses, classNode_eq declared]
      by_cases isReached : program.classNode position ∈ reached
      · rw [if_pos isReached, sweepMembers_eq distinct declared report fun entry inMembers =>
          List.mk_mem_zipIdx_iff_getElem?.mp inMembers]
        dsimp only
        rw [sweepTags_eq distinct]
        dsimp only
        rw [rest, SweepReport.retainClass_eq, SweepReport.add_assoc, SweepReport.add_assoc,
          SweepReport.add_assoc, ← Program.tally_cons_reached isReached]
        simp [Program.thinnedClasses, Program.reachedClasses, isReached, Program.thinned,
          Program.reachedMembers]
      · rw [if_neg isReached, rest, SweepReport.removeClass_eq, SweepReport.add_assoc,
          ← Program.tally_cons_unreached isReached]
        simp [Program.thinnedClasses, Program.reachedClasses, isReached]

end ProgramGraph

/-! ## The whole sweep -/

theorem Program.removed_tally_perm (program : Program) (reached : List Nat)
    (entries : List (ClassDecl × Nat)) :
    (program.tally reached entries).removed.Perm
      ((program.unreachedClasses reached entries).map (·.name) ++
        (program.removedMembers reached entries).map fun entry =>
          entry.2.qualifiedName entry.1) := by
  induction entries with
  | nil => exact .nil
  | cons entry rest induction =>
      rcases entry with ⟨declaration, position⟩
      by_cases isReached : program.classNode position ∈ reached
      · have names : (program.tally reached ((declaration, position) :: rest)).removed =
            (program.unreachedMembers reached declaration position).map
              (·.qualifiedName declaration.name) ++ (program.tally reached rest).removed := by
          simp [tally, isReached]
        rw [names]
        refine (induction.append_left _).trans ?_
        simpa [unreachedClasses, removedMembers, isReached, Function.comp_def] using
          List.perm_append_comm_assoc _ _ _
      · have names : (program.tally reached ((declaration, position) :: rest)).removed =
            declaration.name :: declaration.members.map (·.qualifiedName declaration.name) ++
              (program.tally reached rest).removed := by
          simp [tally, isReached, ClassDecl.symbolNames]
        rw [names]
        refine (induction.append_left _).trans ?_
        simpa [unreachedClasses, removedMembers, isReached, Function.comp_def] using
          List.perm_append_comm_assoc _ _ _

/-- A sweep that succeeds leaves the reached symbols and accounts for them. -/
theorem ProgramGraph.sweep_eq {program : Program} (distinct : program.symbolNames.Nodup)
    (reached : List Nat) :
    (ofProgram program).sweep reached =
      match (ofProgram program).view.violation? reached with
      | some error => .error error
      | none => .ok ⟨program.remainder reached, program.account reached⟩ := by
  have classes : (ofProgram program).sweepClasses reached program.classes.zipIdx
      { reached := reached.length } = _ :=
    sweepClasses_eq distinct _ fun entry listed => List.mk_mem_zipIdx_iff_getElem?.mp listed
  have sorted := mergeSort_eq_of_perm textLe_iff Function.injective_id
    (program.removed_tally_perm reached program.classes.zipIdx)
  have same : (ofProgram program).program = program := rfl
  rw [sweep, same, classes]
  cases (ofProgram program).view.violation? reached with
  | some error => rfl
  | none =>
      have roots : (program.tally reached program.classes.zipIdx).roots = 0 := rfl
      have faults : (program.tally reached program.classes.zipIdx).ruleFaults = [] := rfl
      simp [SweepReport.add, sorted, Program.remainder, Program.account, Program.removedNames,
        roots, faults]

end ClassShrink
