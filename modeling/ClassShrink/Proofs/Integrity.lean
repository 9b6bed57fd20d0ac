import ClassShrink.Proofs.Interleaving
import ClassShrink.Proofs.Pass

/-! # Errors that cannot occur

A set of nodes is intact if no edge that marking follows leads out of it. What
marking reaches is always intact, on every graph and by every schedule. The graph
of a program is enclosed: whatever it lists about a node is a node again. So a
pass over a program fails only where its graph cannot be built. -/

namespace ClassShrink

open ProgramGraph (ofProgram)

namespace SymbolGraph

variable {graph : SymbolGraph} {roots reached seeds : List Nat}

/-! ## Intact sets -/

theorem leastPair?_eq_none_iff (pairs : List (String × String)) :
    leastPair? pairs = none ↔ pairs = [] := by
  cases pairs with
  | nil => simp [leastPair?]
  | cons pair rest =>
      rw [leastPair?]
      cases leastPair? rest <;> simp

theorem violation?_eq_none_iff :
    graph.violation? reached = none ↔
      ∀ node ∈ reached, ∀ target ∈ graph.followed node, target ∈ reached := by
  rw [violation?, Option.map_eq_none_iff, leastPair?_eq_none_iff, violations,
    List.flatMap_eq_nil_iff]
  simp

theorem violation?_eq_none_of_successors
    (closed : ∀ node ∈ reached, ∀ target ∈ graph.successors node, target ∈ reached) :
    graph.violation? reached = none :=
  violation?_eq_none_iff.mpr fun node member target followed =>
    closed node member target (List.mem_append_left _ followed)

theorem violation?_of_mark {schedule : Schedule}
    (marked : graph.mark schedule roots = .ok reached) : graph.violation? reached = none := by
  rcases mark_eq_ok_iff.mp marked with ⟨_, targetsInside, rfl⟩
  apply violation?_eq_none_of_successors
  intro node member target successor
  exact (mem_reachedBy_iff schedule target).mpr
    (.step ((mem_reachedBy_iff schedule node).mp member) successor
      (targetsInside node member target successor))

theorem violation?_of_spreads {visits : List Nat}
    (complete : ∀ node, node ∈ visits ↔ graph.Spreads seeds node)
    (answered : graph.answer [] visits = .ok reached) : graph.violation? reached = none := by
  rcases answer_eq_ok_iff.mp answered with ⟨targetsInside, rfl⟩
  apply violation?_eq_none_of_successors
  intro node member target successor
  have inside := targetsInside node member target successor
  exact (complete target).mpr (.step ((complete node).mp member) successor
    (List.mem_append_right _ ((mem_nodes_iff target).mpr inside)))

theorem violation?_of_drains {order : WorklistOrder}
    (drains : graph.Drains order [] (order.push seeds []) (.ok reached)) :
    graph.violation? reached = none := by
  rcases exists_drains graph seeds order with ⟨visits, same, complete⟩
  exact violation?_of_spreads complete (same.unique drains)

theorem violation?_of_runs {progress : Progress} (runs : graph.Runs seeds progress)
    (ends : graph.Ends progress (.ok reached)) : graph.violation? reached = none := by
  rcases exists_drains graph seeds .depthFirst with ⟨visits, _, complete⟩
  have agrees := runs.sound.sameAnswer ends complete
  cases answered : graph.answer [] visits with
  | error error =>
      rw [answered] at agrees
      cases agrees
  | ok visited =>
      rw [answered] at agrees
      cases agrees with
      | reached same =>
          have intact := violation?_eq_none_iff.mp (violation?_of_spreads complete answered)
          rw [violation?_eq_none_iff]
          intro node member target followed
          exact (same target).mpr (intact node ((same node).mp member) target followed)

/-! ## Enclosed graphs -/

/-- Whatever the graph lists about its nodes is a node again. -/
structure Enclosed (graph : SymbolGraph) : Prop where
  outgoing : ∀ node target kind, (target, kind) ∈ graph.outgoing node → graph.contains target
  overrides : ∀ node, ∀ target ∈ graph.overrides node, graph.contains target
  overriddenBy : ∀ node, ∀ target ∈ graph.overriddenBy node, graph.contains target
  staticInitializer : ∀ node target, graph.staticInitializer? node = some target →
    graph.contains target
  boundaries : ∀ node ∈ graph.boundaries, graph.contains node

theorem Enclosed.successors (enclosed : graph.Enclosed) (node : Nat) :
    ∀ target ∈ graph.successors node, graph.contains target := by
  intro target successor
  rcases List.mem_append.mp successor with followed | companion
  · rcases (mem_followed_iff node target).mp followed with ⟨kind, edge, _⟩
    exact enclosed.outgoing node target kind edge
  · have ofPairs (paired : target ∈ graph.overriddenBy node ++ graph.overrides node) :
        graph.contains target := by
      rcases List.mem_append.mp paired with below | above
      · exact enclosed.overriddenBy node target below
      · exact enclosed.overrides node target above
    unfold companions at companion
    cases kind : graph.kind node with
    | method => exact ofPairs (by simpa only [kind] using companion)
    | boundary => exact ofPairs (by simpa only [kind] using companion)
    | field => simp [kind] at companion
    | classDecl =>
        rw [kind, Option.mem_toList] at companion
        exact enclosed.staticInitializer node target companion

theorem Enclosed.mark_eq_ok (enclosed : graph.Enclosed)
    (rootsInside : ∀ root ∈ roots, graph.contains root) (schedule : Schedule) :
    graph.mark schedule roots = .ok (graph.reachedBy schedule roots) :=
  mark_eq_ok_iff.mpr ⟨rootsInside, fun node _ => enclosed.successors node, rfl⟩

end SymbolGraph

/-! ## The graph of a program -/

namespace ProgramGraph

variable {program : Program}

theorem contains_of_mem_classes {node : Nat} (isClass : node ∈ (ofProgram program).view.classes) :
    (ofProgram program).view.contains node := by
  rcases (mem_view_classes_iff node).mp isClass with ⟨position, declaration, declared, rfl⟩
  have placed := nodeNames_getElem? (Program.symbolNames_classNode declared)
  exact (view_contains _).mpr (List.getElem?_eq_some_iff.mp placed).1

theorem contains_of_placed {node : Nat} {name : String}
    (placed : program.nodeNames[node]? = some name) :
    (ofProgram program).view.contains node :=
  (view_contains node).mpr (List.getElem?_eq_some_iff.mp placed).1

/-- An edge that is pending leads to a node, be it to a symbol of the program, to
a class that a tag names, or to a boundary symbol that is made for it. -/
theorem contains_of_pending (distinct : program.symbolNames.Nodup) {edge : PendingEdge}
    (pending : edge ∈ program.pendingEdges) :
    (ofProgram program).view.contains ((ofProgram program).nodeAt edge.target) := by
  rcases Program.links_or_annotates pending with links | ⟨_, tag, position, found, target⟩
  · exact contains_of_placed (names_of_links distinct links)
  · rcases (Program.position?_eq_some_iff distinct tag).mp found with ⟨_, declared, _⟩
    rw [target]
    exact contains_of_placed
      (nodeNames_getElem? (Program.symbolNames_classNode declared))

theorem contains_of_paired (distinct : program.symbolNames.Nodup) {overrider overridden : Nat}
    (paired : (overrider, overridden) ∈ (ofProgram program).overridePairs) :
    (ofProgram program).view.contains overrider ∧
      (ofProgram program).view.contains overridden := by
  rcases Program.exists_overrides distinct paired with ⟨_, _, placed, otherPlaced, _⟩
  exact ⟨contains_of_placed placed, contains_of_placed otherPlaced⟩

theorem contains_of_edge (distinct : program.symbolNames.Nodup) {edge : Edge}
    (present : edge ∈ (ofProgram program).edges) :
    (ofProgram program).view.contains edge.target := by
  rw [ofProgram_edges] at present
  rcases List.mem_append.mp present with ofPending | ofPair
  · rcases List.mem_map.mp (List.mem_eraseDups.mp ofPending) with ⟨_, pending, rfl⟩
    exact contains_of_pending distinct pending
  · rcases List.mem_map.mp ofPair with ⟨⟨overrider, overridden⟩, paired, rfl⟩
    exact (contains_of_paired distinct paired).2

theorem contains_of_initializer {node target : Nat}
    (initializes : (ofProgram program).view.staticInitializer? node = some target) :
    (ofProgram program).view.contains target := by
  cases origin : ((ofProgram program).node node).origin with
  | member => simp [view, origin] at initializes
  | boundary => simp [view, origin] at initializes
  | declaration position =>
      have initializes : (ofProgram program).initializerAt? position = some target := by
        simpa [view, origin] using initializes
      rcases Option.bind_eq_some_iff.mp initializes with ⟨declaration, declared, _⟩
      rcases name_of_initializerAt? declared initializes with ⟨_, _, placed⟩
      exact contains_of_placed (nodeNames_getElem? placed)

theorem view_enclosed (distinct : program.symbolNames.Nodup) :
    (ofProgram program).view.Enclosed where
  outgoing _ _ _ leaves := contains_of_edge distinct ((mem_outgoing_iff _ _ _).mp leaves)
  overrides _ _ above := (contains_of_paired distinct ((mem_overrides_iff _ _).mp above)).2
  overriddenBy _ _ below := (contains_of_paired distinct ((mem_overriddenBy_iff _ _).mp below)).1
  staticInitializer _ _ := contains_of_initializer
  boundaries := boundaries_inside

end ProgramGraph

/-! ## Passes -/

/-- On every class on which a rule does not fail, it answers nodes of the graph. -/
def KeepRule.AnswersNodes (rule : KeepRule) (graph : SymbolGraph) : Prop :=
  ∀ node ∈ graph.classes, ∀ symbols, rule.keep graph node = .ok symbols →
    ∀ symbol ∈ symbols, graph.contains symbol

theorem KeepRule.ofConfig_answersNodes (config : Config) (program : Program) :
    ∀ rule ∈ ofConfig config, rule.AnswersNodes (ofProgram program).view := by
  intro rule listed node isClass symbols answered symbol member
  rcases (ProgramGraph.mem_view_classes_iff node).mp isClass with
    ⟨position, declaration, declared, rfl⟩
  rcases selects_of_keeps listed declared ⟨symbols, answered, member⟩ with ⟨name, placed, _⟩
  exact ProgramGraph.contains_of_placed (ProgramGraph.nodeNames_getElem? placed)

theorem KeepRule.failing_answersNodes (name suffix message : String) (program : Program) :
    (failing name suffix message).AnswersNodes (ofProgram program).view := by
  intro node isClass symbols answered symbol member
  by_cases fails : Text.endsWith ((ofProgram program).view.name node) suffix
  · simp [failing, fails] at answered
  · obtain rfl : [node] = symbols := by simpa [failing, fails] using answered
    rw [List.mem_singleton.mp member]
    exact ProgramGraph.contains_of_mem_classes isClass

theorem RootSet.compute_inside {graph : SymbolGraph} {rules : List KeepRule}
    (answers : ∀ rule ∈ rules, rule.AnswersNodes graph) :
    ∀ root ∈ (compute graph rules).symbols, graph.contains root := by
  intro root isRoot
  rcases (mem_compute_iff root).mp isRoot with
    ⟨node, isClass, rule, listed, symbols, answered, member⟩
  exact answers rule listed node isClass symbols answered root member

namespace Shrink

variable {program : Program}

variable {config : Config} {extra : List KeepRule}

theorem runWith_eq_error {error : ShrinkError}
    (failed : ProgramGraph.build program config.analysis.parallel = .error error) :
    runWith config extra program = .error error := by
  rw [runWith, failed]
  rfl

theorem exists_runWith_eq_ok {graph : ProgramGraph}
    (built : ProgramGraph.build program config.analysis.parallel = .ok graph)
    (answers : ∀ rule ∈ extra, rule.AnswersNodes graph.view) :
    ∃ outcome, runWith config extra program = .ok outcome := by
  rcases ProgramGraph.build_eq_ok_iff.mp built with ⟨distinct, _, rfl⟩
  have allAnswer : ∀ rule ∈ KeepRule.ofConfig config ++ extra,
      rule.AnswersNodes (ofProgram program).view := by
    intro rule listed
    rcases List.mem_append.mp listed with configured | added
    · exact KeepRule.ofConfig_answersNodes config program rule configured
    · exact answers rule added
  have marked := (ProgramGraph.view_enclosed distinct).mark_eq_ok
    (RootSet.compute_inside allAnswer) config.analysis.schedule
  have intact := SymbolGraph.violation?_of_mark marked
  rw [runWith, built]
  simp only [bind, Except.bind, marked, ProgramGraph.sweep, intact]
  exact ⟨_, rfl⟩

/-- A pass fails exactly where the graph cannot be built, and with that error: as
long as the additional rules answer nodes, no edge dangles and no retained symbol
misses another. The graph of a program is enclosed; and on every graph, whatever
marking reaches is intact, be it with a worklist, in rounds or by many workers. -/
theorem runWith_fails_only_in_construction (config : Config) (extra : List KeepRule)
    (program : Program)
    (answers : ∀ graph, ProgramGraph.build program config.analysis.parallel = .ok graph →
      ∀ rule ∈ extra, rule.AnswersNodes graph.view) :
    (∀ error, runWith config extra program = .error error ↔
      ProgramGraph.build program config.analysis.parallel = .error error) ∧
    (∀ source target,
      runWith config extra program ≠ .error (.danglingEdge source target) ∧
        runWith config extra program ≠ .error (.integrityViolation source target)) ∧
    (∀ graph parallel, ProgramGraph.build program parallel = .ok graph →
      graph.view.Enclosed) ∧
    (∀ (graph : SymbolGraph) (starts reached : List Nat),
      (∀ schedule, graph.mark schedule starts = .ok reached → graph.violation? reached = none) ∧
      (∀ order, graph.Drains order [] (order.push starts []) (.ok reached) →
        graph.violation? reached = none) ∧
      ∀ progress, graph.Runs starts progress → graph.Ends progress (.ok reached) →
        graph.violation? reached = none) := by
  have sameErrors (error : ShrinkError) : runWith config extra program = .error error ↔
      ProgramGraph.build program config.analysis.parallel = .error error := by
    cases built : ProgramGraph.build program config.analysis.parallel with
    | error other => simp [runWith_eq_error built]
    | ok graph =>
        rcases exists_runWith_eq_ok built (answers graph built) with ⟨outcome, ran⟩
        simp [ran]
  refine ⟨sameErrors, ?_, ?_, ?_⟩
  · intro source target
    rw [Ne, sameErrors, Ne, sameErrors]
    rcases ProgramGraph.build_cases program config.analysis.parallel with
      ⟨_, _, failed⟩ | ⟨_, _, _, _, failed⟩ | ⟨_, _, built⟩
    · simp [failed]
    · simp [failed]
    · simp [built]
  · intro graph parallel built
    rcases ProgramGraph.build_eq_ok_iff.mp built with ⟨distinct, _, rfl⟩
    exact ProgramGraph.view_enclosed distinct
  · intro graph starts reached
    exact ⟨fun _ => SymbolGraph.violation?_of_mark, fun _ => SymbolGraph.violation?_of_drains,
      fun _ => SymbolGraph.violation?_of_runs⟩

end Shrink

theorem Callback.failing_rule_passes :
    (∀ graph, ProgramGraph.build program = .ok graph →
      ∀ rule ∈ [KeepRule.failing "picky" "Spare" "unsupported"], rule.AnswersNodes graph.view) ∧
    ∀ error, Shrink.runWith config [KeepRule.failing "picky" "Spare" "unsupported"] program ≠
      .error error := by
  have answers : ∀ graph, ProgramGraph.build program = .ok graph →
      ∀ rule ∈ [KeepRule.failing "picky" "Spare" "unsupported"], rule.AnswersNodes graph.view := by
    intro graph built rule listed
    rcases ProgramGraph.build_eq_ok_iff.mp built with ⟨_, _, rfl⟩
    rw [List.mem_singleton.mp listed]
    exact KeepRule.failing_answersNodes _ _ _ program
  have built : ProgramGraph.build program config.analysis.parallel = .ok (ofProgram program) :=
    ProgramGraph.build_eq_ok_iff.mpr ⟨by decide +kernel, by decide +kernel, rfl⟩
  refine ⟨answers, fun error failed => ?_⟩
  rw [(Shrink.runWith_fails_only_in_construction config _ program answers).1, built] at failed
  cases failed

end ClassShrink
