import ClassShrink.Proofs.OverrideRelation
import ClassShrink.Proofs.Remainder

/-! # Passes without rules

A pass that is not asked to keep anything starts from the boundary symbols alone. No edge
leads on from these, but methods of the program may override them: what the library calls
then runs in the program. Without such a method nothing is left, and with one its class
is. -/

namespace ClassShrink

open ProgramGraph (ofProgram)

/-! ## No roots -/

theorem KeepRule.ofConfig_eq_nil {config : Config} (noRules : config.hasKeepRules = false) :
    ofConfig config = [] := by
  simp only [Config.hasKeepRules, Bool.or_eq_false_iff, Bool.not_eq_false',
    List.isEmpty_iff] at noRules
  rcases noRules with ⟨⟨noPatterns, noMarkers⟩, noEntries⟩
  simp [ofConfig, noPatterns, noMarkers, noEntries]

theorem RootSet.compute_symbols_nil (graph : SymbolGraph) : (compute graph []).symbols = [] := by
  rw [List.eq_nil_iff_forall_not_mem]
  intro symbol isRoot
  rcases (mem_compute_iff symbol).mp isRoot with ⟨_, _, _, listed, _⟩
  exact List.not_mem_nil listed

namespace ProgramGraph

/-! ## Pairs with boundary symbols -/

section Pairs

variable {program : Program} (distinct : program.symbolNames.Nodup)

include distinct

theorem exists_libraryPair_iff {overrider overridden : Nat} :
    (∃ method, (method, overridden) ∈ program.libraryPairs (ofProgram program).boundary? ∧
        overrider = program.memberNode method) ↔
      (overrider, overridden) ∈ (ofProgram program).overridePairs ∧
        overridden ∈ (ofProgram program).view.boundaries := by
  rw [Program.mem_overridePairs_iff distinct]
  constructor
  · intro ofLibrary
    refine ⟨.inr ofLibrary, ?_⟩
    rcases ofLibrary with ⟨method, paired, _⟩
    rcases Program.hasVirtual_of_mem_libraryPairs distinct paired with ⟨_, _, _, found⟩
    exact ((boundary?_eq_some_iff_named distinct).mp found).1
  · rintro ⟨⟨_, other, ofMethods, _, rfl⟩ | ofLibrary, isBoundary⟩
    · rcases Program.hasVirtual_of_mem_methodPairs distinct ofMethods with ⟨_, _, has⟩
      have inside : program.memberNode other < program.symbolNames.length := has.node_lt
      have outside : program.symbolNames.length ≤ program.memberNode other :=
        length_le_of_mem_boundaries isBoundary
      omega
    · exact ofLibrary

theorem libraryPairs_eq_nil_iff :
    program.libraryPairs (ofProgram program).boundary? = [] ↔
      ∀ node ∈ (ofProgram program).view.boundaries,
        (ofProgram program).view.overriddenBy node = [] := by
  simp only [List.eq_nil_iff_forall_not_mem, mem_overriddenBy_iff, Prod.forall]
  constructor
  · intro none node isBoundary overrider paired
    rcases (exists_libraryPair_iff distinct).mpr ⟨paired, isBoundary⟩ with ⟨method, paired, _⟩
    exact none method node paired
  · intro none method node paired
    rcases (exists_libraryPair_iff distinct).mp ⟨method, paired, rfl⟩ with ⟨overrides, isBoundary⟩
    exact none node isBoundary _ overrides

/-! ## What boundary symbols keep -/

/-- No edge leads from a boundary symbol, and it overrides nothing. So what it keeps alive
are the methods that override it. -/
theorem mem_successors_boundary_iff {node : Nat}
    (isBoundary : node ∈ (ofProgram program).view.boundaries) (target : Nat) :
    target ∈ (ofProgram program).view.successors node ↔
      target ∈ (ofProgram program).view.overriddenBy node := by
  have kind := (mem_boundaries_iff_kind.mp isBoundary).2
  have noEdges : target ∉ (ofProgram program).view.followed node := by
    intro followed
    rcases (SymbolGraph.mem_followed_iff node target).mp followed with ⟨_, leaves, _⟩
    exact source_notMem_boundaries distinct ((mem_outgoing_iff _ _ _).mp leaves) isBoundary
  have overridesNone : target ∉ (ofProgram program).view.overrides node := by
    intro overrides
    have edge := (mem_override_edges_iff distinct).mpr ((mem_overrides_iff _ _).mp overrides)
    exact source_notMem_boundaries distinct edge isBoundary
  rw [SymbolGraph.successors, SymbolGraph.companions, kind, List.mem_append, List.mem_append]
  simp [noEdges, overridesNone]

theorem mem_reached_iff_boundary {schedule : Schedule} {reached : List Nat}
    (marked : (ofProgram program).view.mark schedule [] = .ok reached)
    (noPairs : program.libraryPairs (ofProgram program).boundary? = []) (node : Nat) :
    node ∈ reached ↔ node ∈ (ofProgram program).view.boundaries := by
  rcases SymbolGraph.mark_eq_ok_iff.mp marked with ⟨_, _, rfl⟩
  rw [SymbolGraph.mem_reachedBy_iff]
  constructor
  · intro reaches
    induction reaches with
    | root isRoot _ => exact absurd isRoot List.not_mem_nil
    | boundary isBoundary _ => exact isBoundary
    | @step node target _ successor _ isBoundary =>
        rw [mem_successors_boundary_iff distinct isBoundary,
          (libraryPairs_eq_nil_iff distinct).mp noPairs node isBoundary] at successor
        exact absurd successor List.not_mem_nil
  · intro isBoundary
    exact .boundary isBoundary (boundaries_inside node isBoundary)

end Pairs

/-! ## Classes that are left -/

theorem remainder_classes_eq_nil_iff {program : Program} {reached : List Nat} :
    (program.remainder reached).classes = [] ↔
      ∀ node ∈ (ofProgram program).view.classes, node ∉ reached := by
  rw [List.eq_nil_iff_forall_not_mem]
  constructor
  · intro nothingLeft node isClass retained
    rcases (mem_view_classes_iff node).mp isClass with ⟨position, declaration, declared, rfl⟩
    exact nothingLeft _ ((Program.mem_remainder_iff _).mpr ⟨position, _, declared, retained, rfl⟩)
  · intro unreached left isLeft
    rcases (Program.mem_remainder_iff left).mp isLeft with
      ⟨position, declaration, declared, retained, _⟩
    exact unreached _ ((mem_view_classes_iff _).mpr ⟨position, _, declared, rfl⟩) retained

end ProgramGraph

theorem Saturated.class_of_callback {program : Program} {reached : List Nat}
    (saturated : Saturated program reached) {method : MemberPosition} {boundary : Nat}
    (paired : (method, boundary) ∈ program.libraryPairs (ofProgram program).boundary?) :
    ∃ node ∈ (ofProgram program).view.classes, node ∈ reached := by
  rcases (ProgramGraph.exists_libraryPair_iff saturated.distinct).mp ⟨method, paired, rfl⟩ with
    ⟨overrides, isBoundary⟩
  rcases Program.hasVirtual_of_mem_libraryPairs saturated.distinct paired with
    ⟨_, _, ⟨member, present, _⟩, _⟩
  rcases Program.memberAt?_eq_some_iff.mp present with ⟨declaration, declared, has⟩
  have retained := saturated.overrider_of_boundary isBoundary overrides
  exact ⟨_, (ProgramGraph.mem_view_classes_iff _).mpr ⟨method.owner, declaration, declared, rfl⟩,
    saturated.owner_of_member declared has retained⟩

theorem ProgramGraph.remainder_of_boundaries {program : Program} {schedule : Schedule}
    {reached : List Nat} (distinct : program.symbolNames.Nodup)
    (resolved : program.firstUnresolved? = none)
    (marked : (ofProgram program).view.mark schedule [] = .ok reached) :
    (program.remainder reached).classes = [] ↔
      program.libraryPairs (ofProgram program).boundary? = [] := by
  rw [remainder_classes_eq_nil_iff]
  constructor
  · intro unreached
    rw [List.eq_nil_iff_forall_not_mem]
    rintro ⟨method, boundary⟩ paired
    have saturated : Saturated program reached := .of_mark distinct resolved marked
    rcases saturated.class_of_callback paired with ⟨node, isClass, retained⟩
    exact unreached node isClass retained
  · intro noPairs node isClass retained
    have isBoundary := (mem_reached_iff_boundary distinct marked noPairs node).mp retained
    rcases (mem_view_classes_iff node).mp isClass with ⟨position, declaration, declared, rfl⟩
    cases (kind_classNode declared).symm.trans (mem_boundaries_iff_kind.mp isBoundary).2

theorem Shrink.run_eq_ok_of_mark {config : Config} {program : Program} {reached : List Nat}
    (distinct : program.symbolNames.Nodup) (resolved : program.firstUnresolved? = none)
    (marked : (ofProgram program).view.mark config.analysis.schedule
      (config.roots program).symbols = .ok reached) :
    run config program = .ok
      { program := program.remainder reached
        report :=
          { program.account reached with
            roots := (config.roots program).size
            ruleFaults := (config.roots program).faults } } := by
  have intact := SymbolGraph.violation?_of_mark marked
  rw [run_eq_of_build distinct resolved, marked]
  simp only [bind, Except.bind, ProgramGraph.sweep_eq distinct, intact]
  rfl

/-- A pass without rules succeeds and has no roots. It leaves no class exactly if no method
of the program is paired with a boundary symbol, and in that case it reaches the boundary
symbols and nothing else. -/
theorem Shrink.run_without_rules {config : Config} {program : Program} {graph : ProgramGraph}
    (built : ProgramGraph.build program config.analysis.parallel = .ok graph)
    (noRules : config.hasKeepRules = false) :
    ∃ outcome reached, run config program = .ok outcome ∧
      graph.view.mark config.analysis.schedule
        (RootSet.compute graph.view (KeepRule.ofConfig config)).symbols = .ok reached ∧
      (graph.sweep reached).map Outcome.program = .ok outcome.program ∧
      outcome.report.reached = reached.length ∧ outcome.report.roots = 0 ∧
      (outcome.program.classes = [] ↔ program.libraryPairs graph.boundary? = []) ∧
      (program.libraryPairs graph.boundary? = [] ↔
        ∀ node ∈ graph.view.boundaries, graph.view.overriddenBy node = []) ∧
      (program.libraryPairs graph.boundary? = [] →
        ∀ node, node ∈ reached ↔ node ∈ graph.view.boundaries) := by
  rcases ProgramGraph.build_eq_ok_iff.mp built with ⟨distinct, resolved, rfl⟩
  have noRoots : (config.roots program).symbols = [] := by
    rw [Config.roots, KeepRule.ofConfig_eq_nil noRules]
    exact RootSet.compute_symbols_nil _
  obtain ⟨reached, marked⟩ : ∃ reached,
      (ofProgram program).view.mark config.analysis.schedule [] = .ok reached :=
    ⟨_, (ProgramGraph.view_enclosed distinct).mark_eq_ok
      (fun root isRoot => absurd isRoot List.not_mem_nil) config.analysis.schedule⟩
  have fromRoots : (ofProgram program).view.mark config.analysis.schedule
      (config.roots program).symbols = .ok reached := by
    rw [noRoots]
    exact marked
  have swept : ((ofProgram program).sweep reached).map Outcome.program =
      .ok (program.remainder reached) := by
    rw [ProgramGraph.sweep_eq distinct, SymbolGraph.violation?_of_mark marked]
    rfl
  refine ⟨_, reached, run_eq_ok_of_mark distinct resolved fromRoots, fromRoots, swept, rfl,
    congrArg List.length noRoots, ProgramGraph.remainder_of_boundaries distinct resolved marked,
    ProgramGraph.libraryPairs_eq_nil_iff distinct,
    ProgramGraph.mem_reached_iff_boundary distinct marked⟩

namespace Callback

def idleProgram : Program :=
  ⟨[jobClass []]⟩

/-- Without rules, a callback is left with its class, and nothing of a program without
callbacks. -/
theorem left_without_rules :
    (∃ outcome, Shrink.run {} program = .ok outcome ∧ outcome.report.roots = 0 ∧
      outcome.program.classes ≠ []) ∧
    ∃ (graph : ProgramGraph) (outcome : Outcome) (reached : List Nat),
      ProgramGraph.build idleProgram = .ok graph ∧ Shrink.run {} idleProgram = .ok outcome ∧
      outcome.report.roots = 0 ∧ outcome.program.classes = [] ∧
      outcome.report.reached = reached.length ∧
      ∀ node, node ∈ reached ↔ node ∈ graph.view.boundaries := by
  have noRules : ({} : Config).hasKeepRules = false := rfl
  constructor
  · have built : ProgramGraph.build program = .ok (ofProgram program) :=
      ProgramGraph.build_eq_ok_iff.mpr ⟨by decide +kernel, by decide +kernel, rfl⟩
    have paired : program.libraryPairs (ofProgram program).boundary? ≠ [] := by decide +kernel
    rcases Shrink.run_without_rules built noRules with ⟨outcome, _, ran, _, _, _, roots, empty, _⟩
    exact ⟨outcome, ran, roots, fun isEmpty => paired (empty.mp isEmpty)⟩
  · have built : ProgramGraph.build idleProgram = .ok (ofProgram idleProgram) :=
      ProgramGraph.build_eq_ok_iff.mpr ⟨by decide +kernel, by decide +kernel, rfl⟩
    have unpaired : idleProgram.libraryPairs (ofProgram idleProgram).boundary? = [] := by
      decide +kernel
    rcases Shrink.run_without_rules built noRules with
      ⟨outcome, reached, ran, _, _, size, roots, empty, _, boundaries⟩
    exact ⟨_, outcome, reached, built, ran, roots, empty.mpr unpaired, size, boundaries unpaired⟩

end Callback

end ClassShrink
