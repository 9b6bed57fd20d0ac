import ClassShrink.Proofs.Bindings
import ClassShrink.Proofs.Needs
import ClassShrink.Proofs.Roots

/-! # What a pass keeps

A pass over a program whose graph can be built always succeeds. By their names,
the symbols that it leaves are those that the selected symbols and the boundary
symbols need, directly or not. -/

namespace ClassShrink

open ProgramGraph (ofProgram)

/-! ## Kept names -/

namespace Program

variable {program : Program}

/-- What is kept for the sake of the selected symbols: these, the boundary symbols,
and all that a kept symbol needs. -/
inductive Kept (program : Program) (selected : String → Prop) : String → Prop
  | selected {name : String} : selected name → Kept program selected name
  | boundary {name : String} : name ∈ program.boundaryNames → Kept program selected name
  | needed {source target : String} :
      Kept program selected source → program.Needs source target → Kept program selected target

theorem Kept.mono {selected more : String → Prop} (widens : ∀ name, selected name → more name)
    {name : String} (kept : program.Kept selected name) : program.Kept more name := by
  induction kept with
  | selected isSelected => exact .selected (widens _ isSelected)
  | boundary isBoundary => exact .boundary isBoundary
  | needed _ needs induction => exact .needed induction needs

end Program

theorem ProgramGraph.reaches_iff_kept {config : Config} {program : Program}
    (distinct : program.symbolNames.Nodup) {node : Nat} {name : String}
    (placed : program.nodeNames[node]? = some name) :
    (ofProgram program).view.Reaches (config.roots program).symbols node ↔
      program.Kept (config.Selects program) name := by
  constructor
  · intro reaches
    induction reaches generalizing name with
    | root isRoot _ =>
        rcases (Config.mem_roots_iff distinct _).mp isRoot with ⟨same, samePlaced, selects⟩
        rw [nodeNames_getElem? samePlaced] at placed
        cases placed
        exact .selected selects
    | boundary isBoundary _ =>
        rcases (mem_boundaries_iff _).mp isBoundary with ⟨offset, _, rfl⟩
        rw [nodeNames_boundary] at placed
        exact .boundary (List.mem_of_getElem? placed)
    | @step source _ reaches successor _ induction =>
        have inside := (view_contains source).mp reaches.contains
        have sourcePlaced := List.getElem?_eq_getElem inside
        rcases (mem_successors_iff_needs distinct sourcePlaced).mp successor with
          ⟨same, samePlaced, needs⟩
        rw [samePlaced] at placed
        cases placed
        exact .needed (induction sourcePlaced) needs
  · intro kept
    induction kept generalizing node with
    | selected selects =>
        rcases KeepRule.keeps_of_selects selects with ⟨_, _, symbol, _, symbolPlaced, _⟩
        obtain rfl := node_unique distinct placed (nodeNames_getElem? symbolPlaced)
        refine .root ((Config.mem_roots_iff distinct _).mpr ⟨_, symbolPlaced, selects⟩) ?_
        exact (view_contains _).mpr (List.getElem?_eq_some_iff.mp placed).1
    | boundary isBoundary =>
        obtain rfl := node_unique distinct placed (names_boundary isBoundary)
        refine .boundary ((mem_boundaries_iff _).mpr
          ⟨_, List.idxOf_lt_length_of_mem isBoundary, nodeAt_boundary ?_⟩) ?_
        · exact ((Program.mem_boundaryNames_iff _).mp isBoundary).1
        · exact (view_contains _).mpr (List.getElem?_eq_some_iff.mp placed).1
    | needed _ needs induction =>
        rcases exists_successor_of_needs distinct needs with
          ⟨source, target, sourcePlaced, targetPlaced, successor⟩
        obtain rfl := node_unique distinct placed targetPlaced
        exact .step (induction sourcePlaced) successor
          ((view_contains _).mpr (List.getElem?_eq_some_iff.mp placed).1)

/-! ## Passes that succeed -/

structure Pass (config : Config) (program : Program) (outcome : Outcome) (reached : List Nat) :
    Prop where
  distinct : program.symbolNames.Nodup
  resolved : program.firstUnresolved? = none
  once : reached.Nodup
  mem_reached_iff : ∀ node, node ∈ reached ↔
    ∃ name, program.nodeNames[node]? = some name ∧
      program.Kept (config.Selects program) name
  program_eq : outcome.program = program.remainder reached
  report_eq : outcome.report =
    { program.account reached with
      roots := (config.roots program).size
      ruleFaults := [] }

namespace Shrink

variable {config : Config} {program : Program}

theorem run_eq_of_build (distinct : program.symbolNames.Nodup)
    (resolved : program.firstUnresolved? = none) :
    run config program = (do
      let reached ← (ofProgram program).view.mark config.analysis.schedule
        (config.roots program).symbols
      let outcome ← (ofProgram program).sweep reached
      return { outcome with
        report := { outcome.report with
          roots := (config.roots program).size
          ruleFaults := (config.roots program).faults } }) := by
  have built : ProgramGraph.build program config.analysis.parallel = .ok (ofProgram program) :=
    ProgramGraph.build_eq_ok_iff.mpr ⟨distinct, resolved, rfl⟩
  rw [run, runWith, built, List.append_nil]
  rfl

theorem mark_eq_ok (distinct : program.symbolNames.Nodup) :
    ∃ reached, (ofProgram program).view.mark config.analysis.schedule
        (config.roots program).symbols = .ok reached ∧ reached.Nodup ∧
      ∀ node, node ∈ reached ↔
        ∃ name, program.nodeNames[node]? = some name ∧
          program.Kept (config.Selects program) name := by
  have mem_iff (node : Nat) :
      node ∈ (ofProgram program).view.reachedBy config.analysis.schedule
          (config.roots program).symbols ↔
        ∃ name, program.nodeNames[node]? = some name ∧
          program.Kept (config.Selects program) name := by
    rw [SymbolGraph.mem_reachedBy_iff]
    constructor
    · intro reaches
      have placed :=
        List.getElem?_eq_getElem ((ProgramGraph.view_contains node).mp reaches.contains)
      exact ⟨_, placed, (ProgramGraph.reaches_iff_kept distinct placed).mp reaches⟩
    · rintro ⟨name, placed, kept⟩
      exact (ProgramGraph.reaches_iff_kept distinct placed).mpr kept
  refine ⟨_, SymbolGraph.mark_eq_ok_iff.mpr ⟨?_, ?_, rfl⟩, SymbolGraph.reachedBy_nodup _, mem_iff⟩
  · intro root isRoot
    rcases (Config.mem_roots_iff distinct root).mp isRoot with ⟨name, placed, _⟩
    have named : program.nodeNames[root]? = some name :=
      ProgramGraph.nodeNames_getElem? placed
    exact (ProgramGraph.view_contains root).mpr (List.getElem?_eq_some_iff.mp named).1
  · intro node member target successor
    rcases (mem_iff node).mp member with ⟨name, placed, _⟩
    rcases (ProgramGraph.mem_successors_iff_needs distinct placed).mp successor with
      ⟨_, targetPlaced, _⟩
    exact (ProgramGraph.view_contains target).mpr (List.getElem?_eq_some_iff.mp targetPlaced).1

theorem sweep_eq_ok (distinct : program.symbolNames.Nodup) {reached : List Nat}
    (mem_iff : ∀ node, node ∈ reached ↔
      ∃ name, program.nodeNames[node]? = some name ∧
        program.Kept (config.Selects program) name) :
    (ofProgram program).sweep reached =
      .ok ⟨program.remainder reached, program.account reached⟩ := by
  have intact : (ofProgram program).view.violations reached = [] := by
    rw [SymbolGraph.violations, List.flatMap_eq_nil_iff]
    intro node member
    rw [List.map_eq_nil_iff, List.filter_eq_nil_iff]
    intro target followed
    rcases (mem_iff node).mp member with ⟨source, placed, kept⟩
    rcases (ProgramGraph.mem_successors_iff_needs distinct placed).mp
      (List.mem_append_left _ followed) with ⟨name, targetPlaced, needs⟩
    simpa using (mem_iff target).mpr ⟨name, targetPlaced, .needed kept needs⟩
  rw [ProgramGraph.sweep_eq distinct, SymbolGraph.violation?, intact, SymbolGraph.leastPair?]
  rfl

/-- A pass succeeds whenever the graph can be built. -/
theorem exists_pass (config : Config) (distinct : program.symbolNames.Nodup)
    (resolved : program.firstUnresolved? = none) :
    ∃ outcome reached, run config program = .ok outcome ∧ Pass config program outcome reached := by
  obtain ⟨reached, marked, once, mem_iff⟩ :
      ∃ reached, (ofProgram program).view.mark config.analysis.schedule
        (config.roots program).symbols = .ok reached ∧ _ := mark_eq_ok distinct
  have swept := sweep_eq_ok distinct mem_iff
  let report : SweepReport :=
    { program.account reached with
      roots := (config.roots program).size
      ruleFaults := [] }
  refine ⟨⟨program.remainder reached, report⟩, reached, ?_,
    distinct, resolved, once, mem_iff, rfl, rfl⟩
  rw [run_eq_of_build distinct resolved, marked, Config.roots_faults]
  simp only [bind, Except.bind, swept]
  rfl

theorem exists_pass_of_run {outcome : Outcome} (ran : run config program = .ok outcome) :
    ∃ reached, Pass config program outcome reached := by
  rcases runWith_eq_ok ran with ⟨_, cut⟩
  rcases exists_pass config cut.distinct cut.resolved with ⟨same, reached, sameRan, pass⟩
  rw [ran] at sameRan
  cases sameRan
  exact ⟨reached, pass⟩

theorem run_eq_error {error : ShrinkError}
    (failed : ProgramGraph.build program config.analysis.parallel = .error error) :
    run config program = .error error := by
  rw [run, runWith, failed]
  rfl

end Shrink

/-! ## Names that are left -/

theorem Cut.mem_symbolNames_iff {program left : Program} {reached : List Nat}
    (cut : Cut program left reached) (name : String) :
    name ∈ left.symbolNames ↔ ∃ node ∈ reached, program.symbolNames[node]? = some name := by
  rw [cut.eq_remainder]
  apply Program.mem_symbolNames_remainder_iff
  intro position declaration index member declared has
  exact cut.owner_of_member declared has

namespace Pass

variable {config : Config} {program : Program} {outcome : Outcome} {reached : List Nat}
  (pass : Pass config program outcome reached)

include pass

theorem mem_reached_iff_kept {node : Nat} {name : String}
    (placed : program.nodeNames[node]? = some name) :
    node ∈ reached ↔ program.Kept (config.Selects program) name := by
  rw [pass.mem_reached_iff, placed]
  simp

theorem cut : Cut program outcome.program reached where
  distinct := pass.distinct
  resolved := pass.resolved
  boundaries node isBoundary := by
    have placed := List.getElem?_eq_getElem
      ((ProgramGraph.view_contains node).mp (ProgramGraph.boundaries_inside node isBoundary))
    rw [pass.mem_reached_iff_kept placed]
    exact (ProgramGraph.reaches_iff_kept pass.distinct placed).mp
      (.boundary isBoundary (ProgramGraph.boundaries_inside node isBoundary))
  successors node member target successor := by
    rcases (pass.mem_reached_iff node).mp member with ⟨source, placed, kept⟩
    rcases (ProgramGraph.mem_successors_iff_needs pass.distinct placed).mp successor with
      ⟨name, targetPlaced, needs⟩
    exact (pass.mem_reached_iff target).mpr ⟨name, targetPlaced, .needed kept needs⟩
  eq_remainder := pass.program_eq

theorem mem_symbolNames_iff (name : String) :
    name ∈ outcome.program.symbolNames ↔
      name ∈ program.symbolNames ∧ program.Kept (config.Selects program) name := by
  rw [pass.cut.mem_symbolNames_iff]
  constructor
  · rintro ⟨node, retained, placed⟩
    exact ⟨List.mem_of_getElem? placed, (pass.mem_reached_iff_kept
      (ProgramGraph.nodeNames_getElem? placed)).mp retained⟩
  · rintro ⟨defined, kept⟩
    rcases List.mem_iff_getElem?.mp defined with ⟨node, placed⟩
    exact ⟨node, (pass.mem_reached_iff_kept
      (ProgramGraph.nodeNames_getElem? placed)).mpr kept, placed⟩

end Pass

end ClassShrink
