import ClassShrink.Proofs.DeclaredEdges
import ClassShrink.Proofs.Integrity
import Mathlib.Data.Quot

/-! # The override relation

The two lists of a graph about overriding, what a node overrides and what it is
overridden by, are the two sides of one relation, which its edges have too. As
marking follows it both ways, it keeps all symbols that the relation joins, or
none of them. -/

namespace ClassShrink

open ProgramGraph (ofProgram)

namespace ProgramGraph

variable {program : Program} {graph : ProgramGraph} {overrider overridden : Nat}

/-! ## Pairs -/

/-- Both symbols of a pair are virtual methods with one signature, declared by
different classes, unless the overridden one is a boundary symbol. -/
def OverrideEnds (graph : ProgramGraph) (program : Program) (overrider overridden : Nat) : Prop :=
  ∃ signature method, program.HasVirtual signature method ∧
    overrider = graph.memberNode method.owner method.index ∧
      ((∃ other, program.HasVirtual signature other ∧
          overridden = graph.memberNode other.owner other.index ∧ other.owner ≠ method.owner) ∨
        overridden ∈ graph.view.boundaries)

theorem overrideEnds_of_paired (distinct : program.symbolNames.Nodup)
    (paired : (overrider, overridden) ∈ (ofProgram program).overridePairs) :
    (ofProgram program).OverrideEnds program overrider overridden := by
  rcases (Program.mem_overridePairs_iff distinct).mp paired with
    ⟨method, other, ofMethods, rfl, rfl⟩ | ⟨method, ofLibrary, rfl⟩
  · rcases (Program.mem_methodPairs_iff_paired distinct).mp ofMethods with
      ⟨_, _, signature, _, _, nearest, has, _, _, apart⟩
    have isMethod := nearest.mem_chain.2.2
    exact ⟨signature, method, isMethod, isMethod.memberNode_eq.symm,
      .inl ⟨other, has, has.memberNode_eq.symm, apart⟩⟩
  · rcases (Program.mem_libraryPairs_iff_paired distinct).mp ofLibrary with
      ⟨_, _, signature, _, _, nearest, _, found⟩
    have isBoundary := ((boundary?_eq_some_iff_named distinct).mp found).1
    have isMethod := nearest.mem_chain.2.2
    exact ⟨signature, method, isMethod, isMethod.memberNode_eq.symm, .inr isBoundary⟩

theorem OverrideEnds.ne (ends : (ofProgram program).OverrideEnds program overrider overridden) :
    overrider ≠ overridden := by
  rcases ends with ⟨signature, method, has, rfl, ⟨other, otherHas, rfl, apart⟩ | isBoundary⟩
  · rw [has.memberNode_eq, otherHas.memberNode_eq]
    rcases has with ⟨member, present, _⟩
    rcases otherHas with ⟨otherMember, otherPresent, _⟩
    rcases Nat.lt_or_gt_of_ne apart with earlier | later
    · exact (Program.memberNode_lt_of_owner_lt otherPresent earlier).ne'
    · exact (Program.memberNode_lt_of_owner_lt present later).ne
  · rw [has.memberNode_eq]
    have inside := has.node_lt
    have outside : program.symbolNames.length ≤ overridden :=
      length_le_of_mem_boundaries isBoundary
    omega

/-! ## Both tables -/

theorem mem_override_edges_iff (distinct : program.symbolNames.Nodup) :
    ⟨overrider, overridden, .overrides⟩ ∈ (ofProgram program).edges ↔
      (overrider, overridden) ∈ (ofProgram program).overridePairs := by
  rw [mem_edges_iff distinct, Program.overrideEdge_iff distinct]
  constructor
  · intro present
    rcases present with declares | overrides
    · exact absurd rfl declares.kind_ne_overrides
    · exact overrides.1
  · intro paired
    exact .inr ⟨paired, rfl⟩

theorem overrideIndex_size (distinct : program.symbolNames.Nodup) :
    (ofProgram program).overrideIndex.size =
      (ofProgram program).edges.countP fun edge => edge.kind = .overrides := by
  rw [List.countP_eq_length_filter, override_edges, List.length_map]
  exact OverrideIndex.size_ofPairs (overridePairs_nodup distinct)

theorem overrideIndex_isEmpty_iff :
    (ofProgram program).overrideIndex.isEmpty ↔
      ∀ edge ∈ (ofProgram program).edges, edge.kind ≠ .overrides := by
  have ofPairs : (ofProgram program).overrideIndex.isEmpty ↔
      (ofProgram program).overridePairs = [] := OverrideIndex.isEmpty_ofPairs
  rw [ofPairs, ← List.map_eq_nil_iff, ← override_edges, List.filter_eq_nil_iff]
  simp only [decide_eq_true_eq]

/-! ## Marking -/

/-- Symbols that a chain of overriding joins, in either direction. -/
def Joined (graph : ProgramGraph) : Nat → Nat → Prop :=
  Relation.EqvGen fun overrider overridden => overridden ∈ graph.view.overrides overrider

theorem Joined.together {left right : Nat} {marked : Set Nat}
    (both : ∀ overrider overridden, overridden ∈ graph.view.overrides overrider →
      (overrider ∈ marked ↔ overridden ∈ marked))
    (joined : graph.Joined left right) : left ∈ marked ↔ right ∈ marked := by
  induction joined with
  | rel overrider overridden overrides => exact both overrider overridden overrides
  | refl node => exact Iff.rfl
  | symm left right _ induction => exact induction.symm
  | trans left middle right _ _ first second => exact first.trans second

theorem closed_both_ways (distinct : program.symbolNames.Nodup) {roots : List Nat}
    {marked : Set Nat} (closed : (ofProgram program).view.Closed roots marked)
    (overrides : overridden ∈ (ofProgram program).view.overrides overrider) :
    overrider ∈ marked ↔ overridden ∈ marked := by
  have paired := (mem_overrides_iff _ _).mp overrides
  have overriddenBy := (mem_overriddenBy_iff _ _).mpr paired
  rcases overrideEnds_of_paired distinct paired with ⟨signature, method, has, isNode, otherEnd⟩
  rw [has.memberNode_eq] at isNode
  constructor
  · intro isMarked
    exact closed.overrides _ isMarked (.inl (isNode ▸ kind_of_virtual has)) _ overrides
  · intro isMarked
    refine closed.overriddenBy _ isMarked ?_ _ overriddenBy
    rcases otherEnd with ⟨other, otherHas, otherNode, _⟩ | isBoundary
    · rw [otherHas.memberNode_eq] at otherNode
      exact .inl (otherNode ▸ kind_of_virtual otherHas)
    · exact .inr (mem_boundaries_iff_kind.mp isBoundary).2

structure OverridesConsistently (graph : ProgramGraph) (program : Program) : Prop where
  inverse : ∀ overrider overridden, overridden ∈ graph.view.overrides overrider ↔
    overrider ∈ graph.view.overriddenBy overridden
  edge : ∀ overrider overridden, overridden ∈ graph.view.overrides overrider ↔
    ⟨overrider, overridden, .overrides⟩ ∈ graph.edges
  overrides_ascending : ∀ node, (graph.view.overrides node).Pairwise (· < ·)
  overriddenBy_ascending : ∀ node, (graph.view.overriddenBy node).Pairwise (· < ·)
  irreflexive : ∀ node, node ∉ graph.view.overrides node
  ends : ∀ overrider overridden, overridden ∈ graph.view.overrides overrider →
    graph.OverrideEnds program overrider overridden
  size : graph.overrideIndex.size = graph.edges.countP fun edge => edge.kind = .overrides
  isEmpty : graph.overrideIndex.isEmpty ↔ ∀ edge ∈ graph.edges, edge.kind ≠ .overrides

end ProgramGraph

/-- A graph that is built records one relation of overriding. From all roots that are
nodes, marking reaches all symbols that the relation joins or none of them, and it
reaches those that are joined with a boundary symbol. -/
theorem ProgramGraph.overriding_all_or_none {program : Program} {graph : ProgramGraph}
    {parallel : Bool} (built : ProgramGraph.build program parallel = .ok graph) :
    graph.OverridesConsistently program ∧
    ∀ (schedule : Schedule) (roots : List Nat), (∀ root ∈ roots, graph.view.contains root) →
      ∃ reached, graph.view.mark schedule roots = .ok reached ∧
        ∀ left right, graph.Joined left right →
          (left ∈ reached ↔ right ∈ reached) ∧
            (left ∈ graph.view.boundaries → right ∈ reached) := by
  rcases build_eq_ok_iff.mp built with ⟨distinct, _, rfl⟩
  refine ⟨?_, ?_⟩
  · exact
      { inverse := fun overrider overridden => by rw [mem_overrides_iff, mem_overriddenBy_iff]
        edge := fun overrider overridden => by
          rw [mem_overrides_iff, mem_override_edges_iff distinct]
        overrides_ascending := OverrideIndex.overrides_ofPairs_pairwise _
        overriddenBy_ascending := OverrideIndex.overriddenBy_ofPairs_pairwise _
        irreflexive := fun node overrides =>
          (overrideEnds_of_paired distinct ((mem_overrides_iff _ _).mp overrides)).ne rfl
        ends := fun overrider overridden overrides =>
          overrideEnds_of_paired distinct ((mem_overrides_iff _ _).mp overrides)
        size := overrideIndex_size distinct
        isEmpty := overrideIndex_isEmpty_iff }
  · intro schedule roots rootsInside
    have marked := (view_enclosed distinct).mark_eq_ok rootsInside schedule
    have closed := (SymbolGraph.isLeast_reached boundaries_inside marked).1
    refine ⟨_, marked, ?_⟩
    intro left right joined
    have together := joined.together fun _ _ => closed_both_ways distinct closed
    exact ⟨together, fun isBoundary => together.mp (closed.boundaries left isBoundary)⟩

namespace CyclicParents

/-- Without any root, marking reaches the method of the first class by way of the
method of the second, which overrides one of the library. -/
theorem joined_methods_reached :
    ∃ graph, ProgramGraph.build program = .ok graph ∧
      (∃ reached, graph.view.mark .parallel [] = .ok reached ∧
        graph.memberNode 0 0 ∈ reached) ∧
      graph.memberNode 0 0 ∈ graph.view.overriddenBy (graph.memberNode 1 0) := by
  have built : ProgramGraph.build program = .ok (ofProgram program) :=
    ProgramGraph.build_eq_ok_iff.mpr ⟨by decide +kernel, by decide +kernel, rfl⟩
  rcases ProgramGraph.overriding_all_or_none built with ⟨consistent, allOrNone⟩
  have distinct : program.symbolNames.Nodup := by decide +kernel
  have first : program.memberNode ⟨1, 0⟩ ∈
      (ofProgram program).view.overrides (program.memberNode ⟨0, 0⟩) := by
    rw [ProgramGraph.mem_overrides_iff, Program.mem_overridePairs_iff distinct]
    refine .inl ⟨⟨0, 0⟩, ⟨1, 0⟩, ?_, rfl, rfl⟩
    rw [Program.methodPairs, mem_ascending_iff]
    decide +kernel
  have second : 5 ∈ (ofProgram program).view.overrides (program.memberNode ⟨1, 0⟩) := by
    rw [ProgramGraph.mem_overrides_iff, Program.mem_overridePairs_iff distinct]
    refine .inr ⟨⟨1, 0⟩, ?_, rfl⟩
    rw [Program.libraryPairs, mem_ascending_iff]
    decide +kernel
  have joined : (ofProgram program).Joined 5 (program.memberNode ⟨0, 0⟩) :=
    .symm _ _ (.trans _ _ _ (.rel _ _ first) (.rel _ _ second))
  have isBoundary : 5 ∈ (ofProgram program).view.boundaries := by decide +kernel
  rcases allOrNone .parallel [] (fun root isRoot => absurd isRoot List.not_mem_nil) with
    ⟨reached, marked, together⟩
  exact ⟨_, built, ⟨reached, marked, (together _ _ joined).2 isBoundary⟩,
    (consistent.inverse _ _).mp first⟩

end CyclicParents

end ClassShrink
