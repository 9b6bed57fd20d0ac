import ClassShrink.Proofs.Restriction
import ClassShrink.Proofs.SweptProgram
import Mathlib.Data.List.Perm.Basic

/-! # The account of a sweep

Every symbol of a program is either left by a sweep or reported as removed, and
none is both. The counts of a report say how many there are of each kind. After a
pass, what was reached are the symbols that are left and the boundary symbols. -/

namespace ClassShrink

open ProgramGraph (ofProgram)

/-! ## Counts -/

namespace Counts

def total (counts : Counts) : Nat :=
  counts.classes + counts.methods + counts.fields

end Counts

theorem countP_kinds (entries : List (String × Member)) :
    (entries.countP fun entry => entry.2.kind = .method) +
      (entries.countP fun entry => entry.2.kind = .field) = entries.length := by
  rw [List.length_eq_countP_add_countP fun entry : String × Member =>
    decide (entry.2.kind = .method)]
  congr 1
  apply List.countP_congr
  intro entry _
  cases entry.2.kind <;> simp

theorem flatMap_filter {α β : Type} (accepts : α → Bool) (image : α → List β)
    (elements : List α) :
    (elements.filter accepts).flatMap image =
      elements.flatMap fun element => if accepts element then image element else [] := by
  induction elements with
  | nil => rfl
  | cons head tail induction =>
      cases accepted : accepts head <;> simp [accepted, induction]

namespace Program

variable (program : Program) (keeps : String → Bool)

/-! ## Members with their owners -/

def ownedMembers : List (String × Member) :=
  program.classes.flatMap fun declaration =>
    declaration.members.map fun member => (declaration.name, member)

theorem symbolNames_perm :
    program.symbolNames.Perm
      (program.classes.map (·.name) ++
        program.ownedMembers.map fun entry => entry.2.qualifiedName entry.1) := by
  have members : (program.ownedMembers.map fun entry => entry.2.qualifiedName entry.1) =
      program.classes.flatMap fun declaration =>
        declaration.members.map (·.qualifiedName declaration.name) := by
    rw [ownedMembers, List.map_flatMap]
    simp only [List.map_map]
    rfl
  have joined : program.symbolNames = program.classes.flatMap fun declaration =>
      [declaration.name] ++ declaration.members.map (·.qualifiedName declaration.name) := rfl
  rw [members, joined, List.map_eq_flatMap]
  exact (List.flatMap_append_perm _ _ _).symm

theorem counts_eq_ownedMembers :
    program.counts =
      { classes := program.classes.length
        methods := program.ownedMembers.countP fun entry => entry.2.kind = .method
        fields := program.ownedMembers.countP fun entry => entry.2.kind = .field } := by
  have members : program.members = program.ownedMembers.map Prod.snd := by
    simp [Program.members, ownedMembers, List.map_flatMap]
  rw [counts, members, List.countP_map, List.countP_map]
  rfl

theorem symbolNames_length : program.symbolNames.length = program.counts.total := by
  rw [program.symbolNames_perm.length_eq, List.length_append, List.length_map, List.length_map,
    ← countP_kinds, counts_eq_ownedMembers, Counts.total, Nat.add_assoc]

/-! ## What is kept and what is lost -/

def heldMembers : List (String × Member) :=
  program.ownedMembers.filter fun entry =>
    keeps entry.1 && keeps (entry.2.qualifiedName entry.1)

theorem lostMembers_eq_filter :
    program.lostMembers keeps = program.ownedMembers.filter fun entry =>
      !(keeps entry.1 && keeps (entry.2.qualifiedName entry.1)) := by
  rw [lostMembers, ownedMembers, List.filter_flatMap]
  simp only [List.filter_map]
  rfl

theorem ownedMembers_restrict :
    (program.restrict keeps).ownedMembers =
      (program.heldMembers keeps).map fun entry =>
        (entry.1, program.restrictMember keeps entry.2) := by
  rw [ownedMembers, restrict, List.flatMap_map, keptClasses, flatMap_filter, heldMembers,
    ownedMembers, List.filter_flatMap, List.map_flatMap]
  apply List.flatMap_congr
  intro declaration _
  cases kept : keeps declaration.name with
  | false => simp [kept]
  | true =>
      simp [restrictClass, keptMembers, kept, List.filter_map, Function.comp_def]

theorem members_perm :
    (program.heldMembers keeps ++ program.lostMembers keeps).Perm program.ownedMembers := by
  rw [lostMembers_eq_filter]
  exact List.filter_append_perm _ _

theorem classes_perm :
    (program.keptClasses keeps ++ program.lostClasses keeps).Perm program.classes :=
  List.filter_append_perm _ _

theorem names_perm :
    ((program.restrict keeps).symbolNames ++ program.lostNames keeps).Perm
      program.symbolNames := by
  have classNames : (program.restrict keeps).classes.map (·.name) =
      (program.keptClasses keeps).map (·.name) := by
    rw [restrict, List.map_map]
    rfl
  have memberNames :
      ((program.restrict keeps).ownedMembers.map fun entry => entry.2.qualifiedName entry.1) =
        (program.heldMembers keeps).map fun entry => entry.2.qualifiedName entry.1 := by
    rw [ownedMembers_restrict, List.map_map]
    rfl
  have left := (program.restrict keeps).symbolNames_perm
  rw [classNames, memberNames] at left
  have all := program.symbolNames_perm.trans
    (((program.classes_perm keeps).map (·.name)).symm.append
      ((program.members_perm keeps).map fun entry => entry.2.qualifiedName entry.1).symm)
  rw [List.map_append, List.map_append] at all
  refine (left.append_right _).trans (.trans ?_ all.symm)
  -- The names of lost classes are to stand between those of the kept classes and members.
  rw [List.append_assoc, List.append_assoc]
  exact (List.perm_append_comm_assoc _ _ _).append_left _

/-! ## Counts of a report -/

variable (roots reached : Nat)

theorem restrictionReport_counts :
    (program.restrictionReport keeps roots reached).retainedCounts +
      (program.restrictionReport keeps roots reached).removedCounts = program.counts := by
  have classes := (program.classes_perm keeps).length_eq
  have ofKind (kind : MemberKind) :
      ((program.restrict keeps).ownedMembers.countP fun entry => entry.2.kind = kind) +
        ((program.lostMembers keeps).countP fun entry => entry.2.kind = kind) =
      program.ownedMembers.countP fun entry => entry.2.kind = kind := by
    rw [← (program.members_perm keeps).countP_eq, List.countP_append, ownedMembers_restrict,
      List.countP_map]
    rfl
  have kept : (program.restrict keeps).classes.length = (program.keptClasses keeps).length :=
    List.length_map _
  rw [List.length_append, ← kept] at classes
  rw [counts_eq_ownedMembers program, ← classes, ← ofKind .method, ← ofKind .field,
    restrictionReport, counts_eq_ownedMembers]
  rfl

theorem restrictionReport_removed_length :
    (program.restrictionReport keeps roots reached).removed.length =
      (program.restrictionReport keeps roots reached).totalRemoved := by
  rw [restrictionReport, List.length_mergeSort, lostNames, List.length_append, List.length_map,
    List.length_map, ← countP_kinds, ← Nat.add_assoc]
  rfl

theorem restrictionReport_removed_sorted (distinct : program.symbolNames.Nodup) :
    (program.restrictionReport keeps roots reached).removed.Pairwise (· < ·) := by
  have all := (program.names_perm keeps).nodup_iff.mpr distinct
  exact mergeSort_pairwise_lt textLe_iff Function.injective_id (List.nodup_append.mp all).2.1

/-! ## Tags -/

def symbolTags : List (String × List String) :=
  program.classes.flatMap fun declaration =>
    (declaration.name, declaration.annotations) ::
      declaration.members.map fun member =>
        (member.qualifiedName declaration.name, member.annotations)

def tags : List String :=
  program.symbolTags.flatMap Prod.snd

def tagsOn : List String :=
  (program.symbolTags.filter fun entry => keeps entry.1).flatMap Prod.snd

theorem tags_restrict :
    (program.restrict keeps).tags =
      (program.tagsOfKept keeps).filter fun tag => !program.dropsTag keeps tag := by
  rw [tags, symbolTags, restrict, List.flatMap_map, List.flatMap_assoc, tagsOfKept,
    List.filter_flatMap]
  apply List.flatMap_congr
  intro declaration _
  rw [List.flatMap_cons, List.filter_append, List.filter_flatMap, List.flatMap_map, restrictClass,
    List.flatMap_map]
  rfl

theorem tagsOn_eq_tagsOfKept
    (owners : ∀ declaration ∈ program.classes, ∀ member ∈ declaration.members,
      keeps (member.qualifiedName declaration.name) → keeps declaration.name) :
    program.tagsOn keeps = program.tagsOfKept keeps := by
  rw [tagsOn, symbolTags, List.filter_flatMap, List.flatMap_assoc, tagsOfKept, keptClasses,
    flatMap_filter]
  apply List.flatMap_congr
  intro declaration isClass
  cases kept : keeps declaration.name with
  | true => simp [kept, keptMembers, List.filter_map, List.flatMap_map, Function.comp_def]
  | false =>
      have none : (declaration.members.filter fun member =>
          keeps (member.qualifiedName declaration.name)) = [] := by
        rw [List.filter_eq_nil_iff]
        intro member isMember memberKept
        rw [owners declaration isClass member isMember memberKept] at kept
        cases kept
      rw [List.filter_cons_of_neg (by simp [kept]), List.filter_map]
      simp [Function.comp_def, none]

theorem restrictionReport_stripped
    (owners : ∀ declaration ∈ program.classes, ∀ member ∈ declaration.members,
      keeps (member.qualifiedName declaration.name) → keeps declaration.name) :
    (program.restrictionReport keeps roots reached).annotationsStripped +
      (program.restrict keeps).tags.length = (program.tagsOn keeps).length := by
  rw [tagsOn_eq_tagsOfKept program keeps owners, tags_restrict, restrictionReport,
    ← List.countP_eq_length_filter,
    List.length_eq_countP_add_countP (program.dropsTag keeps)]
  simp

end Program

/-! ## Accounts -/

/-- The report of an outcome accounts for every symbol of a program exactly once, and
for every tag on a symbol that is left. -/
structure Outcome.AccountsFor (outcome : Outcome) (program : Program) : Prop where
  names : (outcome.program.symbolNames ++ outcome.report.removed).Perm program.symbolNames
  disjoint : outcome.program.symbolNames.Disjoint outcome.report.removed
  sorted : outcome.report.removed.Pairwise (· < ·)
  total : outcome.report.removed.length = outcome.report.totalRemoved
  retained : outcome.report.retainedCounts = outcome.program.counts
  counts : outcome.report.retainedCounts + outcome.report.removedCounts = program.counts
  empty : outcome.report.emptyClassesRetained =
    outcome.program.classes.countP fun declaration => declaration.members.isEmpty
  stripped : outcome.report.annotationsStripped + outcome.program.tags.length =
    (program.tagsOn outcome.program.defines).length

theorem Program.restrict_accountsFor {program : Program} {keeps : String → Bool}
    (distinct : program.symbolNames.Nodup)
    (owners : ∀ declaration ∈ program.classes, ∀ member ∈ declaration.members,
      keeps (member.qualifiedName declaration.name) → keeps declaration.name)
    (left : (program.restrict keeps).defines = keeps) (roots reached : Nat)
    (faults : List RuleFault) :
    Outcome.AccountsFor
      ⟨program.restrict keeps,
        { program.restrictionReport keeps roots reached with ruleFaults := faults }⟩ program where
  names := ((List.mergeSort_perm _ _).append_left _).trans (program.names_perm keeps)
  disjoint := by
    have all := (program.names_perm keeps).nodup_iff.mpr distinct
    intro name isLeft isRemoved
    exact List.disjoint_of_nodup_append all isLeft (List.mem_mergeSort.mp isRemoved)
  sorted := program.restrictionReport_removed_sorted keeps roots reached distinct
  total := program.restrictionReport_removed_length keeps roots reached
  retained := rfl
  counts := program.restrictionReport_counts keeps roots reached
  empty := rfl
  stripped := by
    dsimp only
    rw [left]
    exact program.restrictionReport_stripped keeps roots reached owners

namespace ProgramGraph

variable {program : Program} {reached : List Nat}

theorem sweep_eq_ok (distinct : program.symbolNames.Nodup) {outcome : Outcome}
    (swept : (ofProgram program).sweep reached = .ok outcome) :
    (ofProgram program).Closed reached ∧
      outcome = ⟨program.remainder reached, program.account reached⟩ := by
  rcases sweep_cases distinct reached with ⟨_, error, failed⟩ | ⟨closed, sweeps⟩
  · cases swept.symm.trans failed
  · exact ⟨closed, Except.ok.inj (swept.symm.trans sweeps)⟩

theorem Closed.keepsNames (closed : (ofProgram program).Closed reached)
    (distinct : program.symbolNames.Nodup) :
    KeepsNames program reached (program.remainder reached).defines where
  distinct := distinct
  symbols node name placed := by
    rw [Program.defines_iff]
    apply Program.mem_reached_iff_remainder distinct _ placed
    intro position declaration index member declared has
    exact closed.owner declared has

theorem Closed.accountsFor (closed : (ofProgram program).Closed reached)
    (distinct : program.symbolNames.Nodup) (roots : Nat) (faults : List RuleFault) :
    Outcome.AccountsFor
      ⟨program.remainder reached,
        { program.account reached with roots, ruleFaults := faults }⟩ program := by
  have agrees := closed.keepsNames distinct
  have owners : ∀ declaration ∈ program.classes, ∀ member ∈ declaration.members,
      (program.remainder reached).defines (member.qualifiedName declaration.name) →
        (program.remainder reached).defines declaration.name := by
    intro declaration isClass member isMember kept
    rcases List.mem_iff_getElem?.mp isClass with ⟨position, declared⟩
    rcases List.mem_iff_getElem?.mp isMember with ⟨index, has⟩
    apply (agrees.classNode_mem_iff declared).mp
    exact closed.owner declared has ((agrees.memberNode_mem_iff declared has).mpr kept)
  have left : (program.restrict (program.remainder reached).defines).defines =
      (program.remainder reached).defines := by
    rw [← agrees.remainder_eq]
  have accounts := Program.restrict_accountsFor distinct owners left roots reached.length faults
  rw [← agrees.remainder_eq] at accounts
  rw [agrees.account_eq]
  exact accounts

end ProgramGraph

/-! ## Passes -/

namespace Pass

variable {config : Config} {program : Program} {outcome : Outcome} {reached : List Nat}
  (pass : Pass config program outcome reached)

include pass

theorem closed : (ofProgram program).Closed reached := by
  rw [← ProgramGraph.violation?_eq_none_iff_closed]
  exact SymbolGraph.violation?_eq_none_of_successors pass.cut.successors

theorem accountsFor : outcome.AccountsFor program := by
  have accounts := pass.closed.accountsFor pass.distinct (config.roots program).size []
  rw [← pass.program_eq, ← pass.report_eq] at accounts
  exact accounts

theorem symbolNames_eq_filter [DecidablePred (program.Kept (config.Selects program))] :
    outcome.program.symbolNames =
      program.symbolNames.filter fun name => program.Kept (config.Selects program) name := by
  apply eq_of_sublist_of_mem_iff pass.distinct pass.cut.symbolNames_sublist List.filter_sublist
  intro name
  rw [pass.mem_symbolNames_iff, List.mem_filter, decide_eq_true_iff]

theorem reached_eq :
    outcome.report.reached =
      outcome.report.retainedCounts.total + (ofProgram program).view.boundaries.length := by
  classical
  have boundaries : program.boundaryNames.countP
      (fun name => program.Kept (config.Selects program) name) = program.boundaryNames.length := by
    rw [List.countP_eq_length]
    intro name isBoundary
    exact decide_eq_true (.boundary isBoundary)
  have names : program.nodeNames = program.symbolNames ++ program.boundaryNames := rfl
  have listed : (ofProgram program).view.boundaries.length = program.boundaryNames.length := by
    rw [ProgramGraph.boundaries_eq, List.length_map, List.length_range]
  have reported : outcome.report.reached = reached.length := by
    rw [pass.report_eq]
    rfl
  rw [reported, pass.reached_length, names, List.countP_append, boundaries, listed,
    pass.accountsFor.retained, ← Program.symbolNames_length, pass.symbolNames_eq_filter,
    List.countP_eq_length_filter]

theorem roots_le : outcome.report.roots ≤ outcome.report.retainedCounts.total := by
  classical
  have reported : outcome.report.roots = (config.roots program).size := by
    rw [pass.report_eq]
  rw [reported, Config.roots_size pass.distinct, pass.accountsFor.retained,
    ← Program.symbolNames_length, pass.symbolNames_eq_filter, ← List.countP_eq_length_filter]
  apply List.countP_mono_left
  intro name _ selects
  exact decide_eq_true (.selected (of_decide_eq_true selects))

end Pass

/-- A sweep of a graph that was built accounts for every symbol of the program, whatever
set of nodes it was given. So does a pass; and what it reached are the symbols that
are left and the boundary symbols, no more of them roots than are left. -/
theorem Shrink.symbols_accounted_for {program : Program} {graph : ProgramGraph} {parallel : Bool}
    (built : ProgramGraph.build program parallel = .ok graph) :
    (∀ reached outcome, graph.sweep reached = .ok outcome → outcome.AccountsFor program) ∧
    ∀ config outcome, run config program = .ok outcome →
      outcome.AccountsFor program ∧
      outcome.report.reached =
        outcome.report.retainedCounts.total + graph.view.boundaries.length ∧
      outcome.report.roots ≤ outcome.report.retainedCounts.total := by
  rcases ProgramGraph.build_eq_ok_iff.mp built with ⟨distinct, _, rfl⟩
  constructor
  · intro reached outcome swept
    rcases ProgramGraph.sweep_eq_ok distinct swept with ⟨closed, rfl⟩
    exact closed.accountsFor distinct 0 []
  · intro config outcome ran
    rcases exists_pass_of_run ran with ⟨reached, pass⟩
    exact ⟨pass.accountsFor, pass.reached_eq, pass.roots_le⟩

namespace Callback

/-- The overriding method alone can be left with its class. The pass keeps more, and
reaches the interface and the method of the library as well. -/
theorem removal_accounted_for :
    ∃ graph, ProgramGraph.build program = .ok graph ∧
      (∃ outcome, graph.sweep [1, 0] = .ok outcome ∧ outcome.AccountsFor program) ∧
      ∃ outcome, Shrink.run config program = .ok outcome ∧ outcome.program = left ∧
        outcome.AccountsFor program ∧
        outcome.report.reached = outcome.report.retainedCounts.total + 2 ∧
        outcome.report.roots ≤ outcome.report.retainedCounts.total := by
  have distinct : program.symbolNames.Nodup := by decide +kernel
  have built : ProgramGraph.build program = .ok (ofProgram program) :=
    ProgramGraph.build_eq_ok_iff.mpr ⟨distinct, by decide +kernel, rfl⟩
  have intact : (ofProgram program).view.violation? [1, 0] = none := by decide +kernel
  have boundaries : (ofProgram program).view.boundaries.length = 2 := by decide +kernel
  have swept : ∃ outcome, (ofProgram program).sweep [1, 0] = .ok outcome := by
    rw [ProgramGraph.sweep_eq distinct, intact]
    exact ⟨_, rfl⟩
  rcases swept with ⟨outcome, swept⟩
  rcases run_eq_ok with ⟨passed, ran, isLeft⟩
  rcases Shrink.symbols_accounted_for built with ⟨ofSweeps, ofPasses⟩
  rcases ofPasses config passed ran with ⟨accounts, reached, roots⟩
  rw [boundaries] at reached
  exact ⟨_, built, ⟨outcome, swept, ofSweeps _ outcome swept⟩, passed, ran, isLeft, accounts,
    reached, roots⟩

end Callback

end ClassShrink
