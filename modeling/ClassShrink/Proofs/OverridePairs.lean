import ClassShrink.Proofs.Overriding

/-! # Exactly the override pairs

The override pairs of a program are listed in strictly ascending order, and there
are no others than the declared hierarchy gives rise to: a method is paired with
one of the same signature on a supertype of a class for which it is the nearest,
or with a boundary symbol that is named like one. -/

namespace ClassShrink

open ProgramGraph (ofProgram)

namespace MemberPosition

def Before (left right : MemberPosition) : Prop :=
  left.owner < right.owner ∨ (left.owner = right.owner ∧ left.index < right.index)

def key (position : MemberPosition) : Nat ×ₗ Nat :=
  toLex (position.owner, position.index)

theorem key_injective : Function.Injective key := by
  rintro ⟨owner, index⟩ ⟨otherOwner, otherIndex⟩ equal
  simpa [key] using equal

theorem le_iff (left right : MemberPosition) : left.le right ↔ left.key ≤ right.key :=
  pairLe_iff _ _

theorem key_lt_key_iff {left right : MemberPosition} : left.key < right.key ↔ left.Before right :=
  Prod.Lex.toLex_lt_toLex

end MemberPosition

namespace Program

variable {program : Program} {position : Nat} {signature : Signature}
  {method other : MemberPosition}

/-! ## Numbers in the order of declaration -/

theorem classNode_succ {declaration : ClassDecl}
    (declared : program.classes[position]? = some declaration) :
    program.classNode (position + 1) =
      program.classNode position + (declaration.members.length + 1) := by
  rcases List.getElem?_eq_some_iff.mp declared with ⟨within, rfl⟩
  have sum (sizes : List Nat) : sizes.foldr (· + ·) 0 = sizes.sum := rfl
  rw [classNode, classNode, List.take_succ_eq_append_getElem within, List.map_append, sum, sum,
    List.sum_append]
  simp

theorem classNode_le_of_le {upper : Nat} (below : position ≤ upper) :
    program.classNode position ≤ program.classNode upper := by
  induction below with
  | refl => exact Nat.le_refl _
  | @step upper _ induction =>
      cases declared : program.classes[upper]? with
      | some declaration =>
          rw [classNode_succ declared]
          omega
      | none =>
          have ended := List.getElem?_eq_none_iff.mp declared
          have same : program.classNode (upper + 1) = program.classNode upper := by
            rw [classNode, classNode, List.take_of_length_le ended,
              List.take_of_length_le (Nat.le_succ_of_le ended)]
          rw [same]
          exact induction

theorem memberNode_lt_of_owner_lt {member : Member}
    (present : program.memberAt? method = some member)
    (earlier : method.owner < other.owner) :
    program.memberNode method < program.memberNode other := by
  rcases memberAt?_eq_some_iff.mp present with ⟨declaration, declared, has⟩
  have within := (List.getElem?_eq_some_iff.mp has).1
  have next := classNode_succ declared
  have mono : program.classNode (method.owner + 1) ≤ program.classNode other.owner :=
    classNode_le_of_le earlier
  rw [memberNode, memberNode]
  omega

theorem memberNode_lt_of_before {member : Member}
    (present : program.memberAt? method = some member) (before : method.Before other) :
    program.memberNode method < program.memberNode other := by
  rcases before with earlier | ⟨same, less⟩
  · exact memberNode_lt_of_owner_lt present earlier
  · rw [memberNode, memberNode, same]
    omega

/-! ## Nearest methods -/

/-- The nearest virtual method with a signature on the superclass chain of a class:
its own, or else the nearest one of its superclass. -/
inductive NearestVirtual (program : Program) (signature : Signature) :
    Nat → MemberPosition → Prop
  | own {position : Nat} {method : MemberPosition} :
      program.HasVirtual signature method → method.owner = position →
        NearestVirtual program signature position method
  | inherited {position upper : Nat} {method : MemberPosition} :
      (∀ own, program.HasVirtual signature own → own.owner ≠ position) →
      upper ∈ program.superclasses position → NearestVirtual program signature upper method →
        NearestVirtual program signature position method

theorem NearestVirtual.unique (distinct : program.symbolNames.Nodup)
    (nearest : program.NearestVirtual signature position method)
    (otherNearest : program.NearestVirtual signature position other) : method = other := by
  induction nearest with
  | own has isOwner =>
      cases otherNearest with
      | own otherHas isOther => exact has.unique distinct otherHas (isOwner.trans isOther.symm)
      | inherited absent _ _ => exact absurd isOwner (absent _ has)
  | inherited absent isUpper _ induction =>
      cases otherNearest with
      | own otherHas isOther => exact absurd isOther (absent _ otherHas)
      | inherited _ isOther otherNearest =>
          rw [superclass_unique isOther isUpper] at otherNearest
          exact induction otherNearest

theorem NearestVirtual.mem_chain
    (nearest : program.NearestVirtual signature position method) :
    position ∈ program.positions ∧ method.owner ∈ program.chain position ∧
      program.HasVirtual signature method := by
  have reaches : position ∈ program.positions ∧
      Relation.ReflTransGen (fun lower upper => upper ∈ program.superclasses lower)
        position method.owner ∧ program.HasVirtual signature method := by
    induction nearest with
    | own has isOwner =>
        subst isOwner
        rcases has.placed with ⟨_, declared, _⟩
        exact ⟨mem_positions_of_declared declared, .refl, has⟩
    | inherited _ isUpper _ induction =>
        rcases (mem_defined_iff _).mp isUpper with ⟨name, named, _⟩
        rcases Option.bind_eq_some_iff.mp (Option.mem_toList.mp named) with ⟨_, declared, _⟩
        exact ⟨mem_positions_of_declared declared, .head isUpper induction.2.1, induction.2.2⟩
  rcases reaches with ⟨inside, above, has⟩
  exact ⟨inside, (mem_chain_iff inside _).mpr above, has⟩

theorem nearestVirtual_of_drain (distinct : program.symbolNames.Nodup)
    {unvisited pending : List Nat} : ∀ {position : Nat}, pending = [position] →
      (Worklist.drain .breadthFirst program.superclasses unvisited pending).findSome?
        (program.virtual? signature) = some method →
      program.NearestVirtual signature position method := by
  induction unvisited, pending using
      Worklist.drain_induction .breadthFirst program.superclasses with
  | done unvisited => rintro position ⟨⟩
  | seen unvisited node pending absent induction =>
      rintro position ⟨⟩ found
      rw [Worklist.drain_cons_of_not_mem _ absent] at found
      simp at found
  | fresh unvisited node pending present induction =>
      rintro position ⟨⟩ found
      rw [Worklist.drain_cons_of_mem _ present, List.findSome?_cons] at found
      cases own : program.virtual? signature node with
      | some ownMethod =>
          rw [own] at found
          cases found
          rcases (virtual?_eq_some_iff distinct).mp own with ⟨isOwner, has⟩
          exact .own has isOwner
      | none =>
          simp only [own] at found
          have absent : ∀ own, program.HasVirtual signature own → own.owner ≠ node := by
            intro ownMethod has isOwner
            rw [(virtual?_eq_some_iff distinct).mpr ⟨isOwner, has⟩] at own
            cases own
          cases above : (program.superclassName? node).bind program.position? with
          | none =>
              simp [superclasses_eq_toList, above, WorklistOrder.push] at found
          | some upper =>
              have isUpper : program.superclasses node = [upper] := by
                rw [superclasses_eq_toList, above]
                rfl
              have start : WorklistOrder.breadthFirst.push (program.superclasses node) [] =
                  [upper] := by
                rw [isUpper]
                rfl
              exact .inherited absent (isUpper ▸ List.mem_singleton_self upper)
                (induction start found)

theorem dispatch?_eq_some_iff_nearest (distinct : program.symbolNames.Nodup) :
    program.dispatch? position signature = some method ↔
      program.NearestVirtual signature position method := by
  have sound {found : MemberPosition} (runs : program.dispatch? position signature = some found) :
      program.NearestVirtual signature position found := by
    rw [dispatch?_eq_findSome?] at runs
    exact nearestVirtual_of_drain distinct rfl runs
  refine ⟨sound, fun nearest => ?_⟩
  rcases nearest.mem_chain with ⟨_, onChain, has⟩
  cases runs : program.dispatch? position signature with
  | some found => rw [(sound runs).unique distinct nearest]
  | none =>
      rw [dispatch?_eq_findSome?, List.findSome?_eq_none_iff] at runs
      have absent := runs method.owner onChain
      rw [(virtual?_eq_some_iff distinct).mpr ⟨rfl, has⟩] at absent
      cases absent

/-! ## Supertypes by names -/

theorem mem_supertypes_iff_isSupertype (distinct : program.symbolNames.Nodup) {upper : Nat}
    {receiver upperClass : ClassDecl} (declared : program.classes[position]? = some receiver)
    (upperDeclared : program.classes[upper]? = some upperClass) :
    upper ∈ program.supertypes position ↔
      program.IsSupertype receiver.name upperClass.name := by
  rw [mem_supertypes_iff (mem_positions_of_declared declared), IsSupertype]
  constructor
  · rintro ⟨apart, inherits⟩
    rcases inherits.names distinct declared with ⟨same, sameDeclared, below⟩
    obtain rfl : upperClass = same := Option.some.inj (upperDeclared.symm.trans sameDeclared)
    exact ⟨fun sameName => apart (class_unique distinct upperDeclared declared sameName), below⟩
  · rintro ⟨apart, below⟩
    have found := (position?_eq_some_iff distinct upperClass.name).mpr
      ⟨upperClass, upperDeclared, rfl⟩
    refine ⟨?_, inherits_of_names distinct declared below found⟩
    rintro rfl
    rw [declared] at upperDeclared
    exact apart (congrArg ClassDecl.name (Option.some.inj upperDeclared)).symm

/-! ## Pairs as the hierarchy gives rise to them -/

/-- Some class has the first method as its nearest with a signature, and the second
has that signature too and is declared on a supertype, which is neither the class
itself nor the class of the first method. -/
def PairsMethods (program : Program) (overrider overridden : MemberPosition) : Prop :=
  ∃ position receiver signature upper,
    program.classes[position]? = some receiver ∧
      program.NearestVirtual signature position overrider ∧
      program.HasVirtual signature overridden ∧
      program.classes[overridden.owner]? = some upper ∧
      program.IsSupertype receiver.name upper.name ∧ overridden.owner ≠ overrider.owner

/-- Some class has the method as its nearest with a signature, and the boundary
symbol has the name of a method with that signature on a supertype other than the
class itself, whether the program defines the supertype or not. -/
def PairsWithBoundary (program : Program) (boundary? : String → Option Nat)
    (overrider : MemberPosition) (boundary : Nat) : Prop :=
  ∃ position receiver signature upper,
    program.classes[position]? = some receiver ∧
      program.NearestVirtual signature position overrider ∧
      program.IsSupertype receiver.name upper ∧ boundary? (signature.key upper) = some boundary

theorem pairsMethods_iff (distinct : program.symbolNames.Nodup) :
    program.PairsMethods method other ↔
      ∃ position ∈ program.positions, (method, other) ∈ program.methodPairsAt position := by
  simp only [mem_methodPairsAt_iff, dispatch?_eq_some_iff_nearest distinct]
  constructor
  · rintro ⟨position, receiver, signature, upper, declared, nearest, has, upperDeclared, above,
      apart⟩
    exact ⟨position, mem_positions_of_declared declared, signature, nearest, has,
      (mem_supertypes_iff_isSupertype distinct declared upperDeclared).mpr above, apart.symm⟩
  · rintro ⟨position, inside, signature, nearest, has, isSupertype, apart⟩
    have declared := List.getElem?_eq_getElem (List.mem_range.mp inside)
    rcases has.placed with ⟨upper, upperDeclared, _⟩
    exact ⟨position, _, signature, upper, declared, nearest, has, upperDeclared,
      (mem_supertypes_iff_isSupertype distinct declared upperDeclared).mp isSupertype, apart.symm⟩

theorem pairsWithBoundary_iff (distinct : program.symbolNames.Nodup)
    {boundary? : String → Option Nat} {boundary : Nat} :
    program.PairsWithBoundary boundary? method boundary ↔
      ∃ position ∈ program.positions,
        (method, boundary) ∈ program.libraryPairsAt boundary? position := by
  simp only [mem_libraryPairsAt_iff, dispatch?_eq_some_iff_nearest distinct]
  constructor
  · rintro ⟨position, receiver, signature, upper, declared, nearest, above, found⟩
    exact ⟨position, mem_positions_of_declared declared, signature, nearest, upper,
      (mem_supertypeNames_iff distinct declared upper).mpr above, found⟩
  · rintro ⟨position, inside, signature, nearest, upper, isSupertype, found⟩
    have declared := List.getElem?_eq_getElem (List.mem_range.mp inside)
    exact ⟨position, _, signature, upper, declared, nearest,
      (mem_supertypeNames_iff distinct declared upper).mp isSupertype, found⟩

theorem mem_methodPairs_iff_paired (distinct : program.symbolNames.Nodup) :
    (method, other) ∈ program.methodPairs ↔ program.PairsMethods method other := by
  rw [mem_methodPairs_iff, pairsMethods_iff distinct]

theorem mem_libraryPairs_iff_paired (distinct : program.symbolNames.Nodup)
    {boundary? : String → Option Nat} {boundary : Nat} :
    (method, boundary) ∈ program.libraryPairs boundary? ↔
      program.PairsWithBoundary boundary? method boundary := by
  rw [mem_libraryPairs_iff, pairsWithBoundary_iff distinct]

theorem PairsMethods.present (paired : program.PairsMethods method other) :
    (∃ member, program.memberAt? method = some member) ∧
      ∃ member, program.memberAt? other = some member := by
  rcases paired with ⟨_, _, _, _, _, nearest, ⟨otherMember, otherPresent, _⟩, _⟩
  rcases nearest.mem_chain.2.2 with ⟨member, present, _⟩
  exact ⟨⟨member, present⟩, otherMember, otherPresent⟩

theorem PairsWithBoundary.present {boundary? : String → Option Nat} {boundary : Nat}
    (paired : program.PairsWithBoundary boundary? method boundary) :
    ∃ member, program.memberAt? method = some member := by
  rcases paired with ⟨_, _, _, _, _, nearest, _⟩
  rcases nearest.mem_chain.2.2 with ⟨member, present, _⟩
  exact ⟨member, present⟩

/-! ## The order of the pairs -/

theorem methodPairs_pairwise :
    program.methodPairs.Pairwise (Prod.Lex MemberPosition.Before MemberPosition.Before) := by
  have sorted := ascending_lexLe_pairwise MemberPosition.le_iff MemberPosition.key_injective
    MemberPosition.le_iff MemberPosition.key_injective
    (program.positions.flatMap program.methodPairsAt)
  simp only [MemberPosition.key_lt_key_iff] at sorted
  exact sorted

theorem libraryPairs_pairwise (boundary? : String → Option Nat) :
    (program.libraryPairs boundary?).Pairwise (Prod.Lex MemberPosition.Before (· < ·)) := by
  have sorted := ascending_lexLe_pairwise MemberPosition.le_iff MemberPosition.key_injective
    natLe_iff Function.injective_id (program.positions.flatMap (program.libraryPairsAt boundary?))
  simp only [MemberPosition.key_lt_key_iff] at sorted
  exact sorted

/-- Members are numbered in the order of declaration, so the nodes of the pairs
ascend as the pairs do. -/
theorem methodPairs_nodes_pairwise (distinct : program.symbolNames.Nodup) :
    (program.methodPairs.map fun pair =>
      (program.memberNode pair.1, program.memberNode pair.2)).Pairwise
        (Prod.Lex (· < ·) (· < ·)) := by
  refine List.pairwise_map.mpr (methodPairs_pairwise.imp_of_mem ?_)
  rintro ⟨left, leftOther⟩ ⟨right, rightOther⟩ inLeft _ before
  rcases ((mem_methodPairs_iff_paired distinct).mp inLeft).present with
    ⟨⟨_, present⟩, _, otherPresent⟩
  rw [Prod.lex_def] at before ⊢
  rcases before with first | ⟨rfl, second⟩
  · exact .inl (memberNode_lt_of_before present first)
  · exact .inr ⟨rfl, memberNode_lt_of_before otherPresent second⟩

theorem libraryPairs_nodes_pairwise (distinct : program.symbolNames.Nodup)
    (boundary? : String → Option Nat) :
    ((program.libraryPairs boundary?).map fun pair => (program.memberNode pair.1, pair.2)).Pairwise
      (Prod.Lex (· < ·) (· < ·)) := by
  refine List.pairwise_map.mpr ((libraryPairs_pairwise boundary?).imp_of_mem ?_)
  rintro ⟨left, leftBoundary⟩ ⟨right, rightBoundary⟩ inLeft _ before
  rcases ((mem_libraryPairs_iff_paired distinct).mp inLeft).present with ⟨_, present⟩
  rw [Prod.lex_def] at before ⊢
  rcases before with first | ⟨rfl, second⟩
  · exact .inl (memberNode_lt_of_before present first)
  · exact .inr ⟨rfl, second⟩

end Program

theorem ProgramGraph.boundary?_eq_some_iff_named {program : Program}
    (distinct : program.symbolNames.Nodup) {name : String} {node : Nat} :
    (ofProgram program).boundary? name = some node ↔
      node ∈ (ofProgram program).view.boundaries ∧ (ofProgram program).view.name node = name := by
  rw [boundary?_eq_some_iff]
  constructor
  · rintro ⟨isBoundary, rfl⟩
    rw [view_name, names_boundary isBoundary, mem_boundaries_iff]
    exact ⟨⟨_, List.idxOf_lt_length_of_mem isBoundary,
      nodeAt_boundary ((Program.mem_boundaryNames_iff name).mp isBoundary).1⟩, rfl⟩
  · rintro ⟨isBoundary, rfl⟩
    rcases (mem_boundaries_iff node).mp isBoundary with ⟨offset, within, rfl⟩
    have listed : program.boundaryNames[offset] ∈ program.boundaryNames := List.getElem_mem within
    have placed : program.nodeNames[program.symbolNames.length + offset]? =
        some program.boundaryNames[offset] :=
      nodeNames_boundary.trans (List.getElem?_eq_getElem within)
    rw [view_name, placed, Option.getD_some]
    exact ⟨listed, node_unique distinct placed (names_boundary listed)⟩

theorem ProgramGraph.override_edges (program : Program) :
    (ofProgram program).edges.filter (·.kind = .overrides) =
      (ofProgram program).overridePairs.map fun pair => ⟨pair.1, pair.2, .overrides⟩ := by
  have others : ∀ edge ∈ (program.pendingEdges.map fun edge =>
      Edge.mk edge.source ((ofProgram program).nodeAt edge.target) edge.kind).eraseDups,
      edge.kind ≠ .overrides := by
    intro edge listed
    rcases List.mem_map.mp (List.mem_eraseDups.mp listed) with ⟨pending, isPending, rfl⟩
    exact (Program.mem_pendingEdges_iff.mp isPending).kind_ne_overrides
  rw [ofProgram_edges, List.filter_append,
    List.filter_eq_nil_iff.mpr fun edge listed => by simpa using others edge listed,
    List.nil_append, List.filter_eq_self]
  intro edge listed
  rcases List.mem_map.mp listed with ⟨_, _, rfl⟩
  rfl

/-- The pairs of methods are those that the hierarchy gives rise to, in the order
of declaration and each once, and so are the pairs with boundary symbols, whatever
the table these are looked up in. A graph that is built takes both, with the table
of its own boundary nodes, and their nodes ascend as they do. -/
theorem Program.overridePairs_exact (program : Program) (distinct : program.symbolNames.Nodup) :
    program.methodPairs.Pairwise (Prod.Lex MemberPosition.Before MemberPosition.Before) ∧
    (∀ method other, (method, other) ∈ program.methodPairs ↔ program.PairsMethods method other) ∧
    (∀ boundary? : String → Option Nat,
      (program.libraryPairs boundary?).Pairwise (Prod.Lex MemberPosition.Before (· < ·)) ∧
      ∀ method boundary, (method, boundary) ∈ program.libraryPairs boundary? ↔
        program.PairsWithBoundary boundary? method boundary) ∧
    ∀ graph parallel, ProgramGraph.build program parallel = .ok graph →
      let methodNodes := program.methodPairs.map fun pair =>
        (graph.memberNode pair.1.owner pair.1.index, graph.memberNode pair.2.owner pair.2.index)
      let libraryNodes (boundary? : String → Option Nat) :=
        (program.libraryPairs boundary?).map fun pair =>
          (graph.memberNode pair.1.owner pair.1.index, pair.2)
      methodNodes.Pairwise (Prod.Lex (· < ·) (· < ·)) ∧
      (∀ boundary?, (libraryNodes boundary?).Pairwise (Prod.Lex (· < ·) (· < ·))) ∧
      graph.edges.filter (·.kind = .overrides) =
        (methodNodes ++ libraryNodes graph.boundary?).map (fun pair =>
          ⟨pair.1, pair.2, .overrides⟩) ∧
      ∀ name node, graph.boundary? name = some node ↔
        node ∈ graph.view.boundaries ∧ graph.view.name node = name := by
  refine ⟨methodPairs_pairwise, fun _ _ => mem_methodPairs_iff_paired distinct,
    fun boundary? => ⟨libraryPairs_pairwise boundary?,
      fun _ _ => mem_libraryPairs_iff_paired distinct⟩, ?_⟩
  intro graph parallel built
  rcases ProgramGraph.build_eq_ok_iff.mp built with ⟨_, _, rfl⟩
  intro methodNodes libraryNodes
  refine ⟨?_, ?_, ProgramGraph.override_edges program,
    fun _ _ => ProgramGraph.boundary?_eq_some_iff_named distinct⟩
  · rw [show methodNodes = _ from methodPairs_nodes distinct]
    exact methodPairs_nodes_pairwise distinct
  · intro boundary?
    rw [show libraryNodes boundary? = _ from libraryPairs_nodes distinct boundary?]
    exact libraryPairs_nodes_pairwise distinct boundary?

namespace CyclicParents

/-! Two classes that are each other's superclass, with a library interface whose
method both declare. -/

def program : Program :=
  ⟨[{ name := "Left", superclass := some "Right", interfaces := ["Task"]
      members := [{ kind := .method, name := "run", descriptor := "" }] },
    { name := "Right", superclass := some "Left"
      members :=
        [{ kind := .method, name := "run", descriptor := ""
           references := [{ owner := "Task", name := some "run" }] }] }]⟩

/-- The method of the first class overrides that of the second, which is declared
after it, and the method of the second class overrides that of the library. -/
theorem overridePairs_of_cycle :
    program.symbolNames.Nodup ∧ program.PairsMethods ⟨0, 0⟩ ⟨1, 0⟩ ∧
      ∃ graph, ProgramGraph.build program = .ok graph ∧
        program.PairsWithBoundary graph.boundary? ⟨1, 0⟩ 5 ∧
        graph.boundary? "Task.run:" = some 5 := by
  have distinct : program.symbolNames.Nodup := by decide +kernel
  have built : ProgramGraph.build program = .ok (ofProgram program) :=
    ProgramGraph.build_eq_ok_iff.mpr ⟨distinct, by decide +kernel, rfl⟩
  rcases program.overridePairs_exact distinct with ⟨_, paired, withLibrary, ofGraphs⟩
  rcases ofGraphs _ _ built with ⟨_, _, _, boundaries⟩
  refine ⟨distinct, (paired _ _).mp ?_, _, built, ((withLibrary _).2 _ _).mp ?_,
    (boundaries _ _).mpr (by decide +kernel)⟩
  · rw [Program.methodPairs, mem_ascending_iff]
    decide +kernel
  · rw [Program.libraryPairs, mem_ascending_iff]
    decide +kernel

end CyclicParents

end ClassShrink
