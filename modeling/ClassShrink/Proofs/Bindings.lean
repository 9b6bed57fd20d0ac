import ClassShrink.Proofs.Correspondence

/-! # Bindings

What is left of a program is a program whose graph can be built, and all that
its declarations and references name is what they named before. -/

namespace ClassShrink

open ProgramGraph (ofProgram)

/-! ## The same symbol -/

/-- Targets in two graphs that stand for symbols with one name and one kind. -/
def ProgramGraph.SameSymbol (graph left : ProgramGraph) (target leftTarget : Target) : Prop :=
  ∃ symbol, graph.symbol? target = some symbol ∧ left.symbol? leftTarget = some symbol

namespace Program

variable {program left : Program}

def SameNode (program left : Program) (node leftNode : Nat) : Prop :=
  ∃ name, program.symbolNames[node]? = some name ∧ left.symbolNames[leftNode]? = some name ∧
    (ofProgram program).view.kind node = (ofProgram left).view.kind leftNode

theorem SameNode.symbolNames_eq {node leftNode : Nat} (same : program.SameNode left node leftNode) :
    program.symbolNames[node]? = left.symbolNames[leftNode]? := by
  rcases same with ⟨name, placed, leftPlaced, _⟩
  rw [placed, leftPlaced]

theorem SameNode.sameSymbol {node leftNode : Nat} (same : program.SameNode left node leftNode) :
    (ofProgram program).SameSymbol (ofProgram left) (.node node) (.node leftNode) := by
  rcases same with ⟨name, placed, leftPlaced, sameKind⟩
  have symbol : (ofProgram program).symbol? (.node node) = _ :=
    ProgramGraph.symbol?_eq_some (ProgramGraph.nodeNames_getElem? placed)
  have leftSymbol : (ofProgram left).symbol? (.node leftNode) = _ :=
    ProgramGraph.symbol?_eq_some (ProgramGraph.nodeNames_getElem? leftPlaced)
  rw [ProgramGraph.nodeAt_node] at symbol leftSymbol
  rw [← sameKind] at leftSymbol
  exact ⟨_, symbol, leftSymbol⟩

theorem SameClass.sameNode {position leftPosition : Nat}
    (same : program.SameClass left position leftPosition) :
    program.SameNode left (program.classNode position) (left.classNode leftPosition) := by
  rcases same with ⟨declaration, kept, declared, leftDeclared, sameName⟩
  have kind : (ofProgram program).view.kind (program.classNode position) = .classDecl :=
    ProgramGraph.kind_classNode declared
  have leftKind : (ofProgram left).view.kind (left.classNode leftPosition) = .classDecl :=
    ProgramGraph.kind_classNode leftDeclared
  refine ⟨declaration.name, symbolNames_classNode declared, ?_, kind.trans leftKind.symm⟩
  rw [symbolNames_classNode leftDeclared, sameName]

theorem SameMember.sameNode {place leftPlace : MemberPosition}
    (same : program.SameMember left place leftPlace) :
    program.SameNode left (program.memberNode place) (left.memberNode leftPlace) := by
  rcases same with ⟨⟨declaration, keptClass, declared, leftDeclared, sameName⟩,
    member, kept, present, leftPresent, sameMember⟩
  have has := has_of_memberAt? present declared
  have leftHas := has_of_memberAt? leftPresent leftDeclared
  have kind : (ofProgram program).view.kind (program.memberNode place) = _ :=
    ProgramGraph.kind_memberNode declared has
  have leftKind : (ofProgram left).view.kind (left.memberNode leftPlace) = _ :=
    ProgramGraph.kind_memberNode leftDeclared leftHas
  have leftName := symbolNames_memberNode leftDeclared leftHas
  rw [sameName] at leftName
  refine ⟨_, symbolNames_memberNode declared has, ?_, ?_⟩
  · rw [← sameMember]
    exact leftName
  · rw [kind, leftKind, ← sameMember]

end Program

/-! ## Lookups -/

namespace Cut

variable {program left : Program} {reached : List Nat} (cut : Cut program left reached)

include cut

theorem lookup_related {position leftPosition : Nat} {signature : Signature}
    (same : program.SameClass left position leftPosition)
    (retained : ∀ declaration, program.lookup position signature = .found declaration →
      program.memberNode declaration ∈ reached) :
    Lookup.Same (program.SameMember left) (program.lookup position signature)
      (left.lookup leftPosition signature) := by
  apply cut.sameHierarchy.lookup same
  have firstRetained (first : MemberPosition)
      (found : (program.lookupPath position).findSome? (program.declared? signature) =
        some first) : isReached program reached first :=
    isReached_iff.mpr (retained first (Program.lookup_eq_found_iff.mpr found))
  have first : Option.Rel (program.SameMember left) _
      ((left.lookupPath leftPosition).findSome? (left.declared? signature)) :=
    findSome?_related (fun _ _ sameHere => cut.declared?_related sameHere)
      (cut.sameHierarchy.lookupPath same)
  rw [← findSome?_filter fun first found _ _ _ _ _ => firstRetained first found] at first
  cases found : (program.lookupPath position).findSome? (program.declared? signature) with
  | none => rwa [found] at first
  | some declaration =>
      rwa [found, Option.filter_some_pos (firstRetained declaration found)] at first

/-! ## Symbols -/

theorem symbol_left {node : Nat} {name : String}
    (placed : program.symbolNames[node]? = some name) (retained : node ∈ reached) :
    ∃ leftNode, program.SameNode left node leftNode := by
  rcases Program.exists_symbol (List.getElem?_eq_some_iff.mp placed).1 with
    ⟨position, declaration, declared, rfl⟩ |
      ⟨position, index, declaration, member, declared, has, rfl⟩
  · rcases cut.class_left declared retained with ⟨leftPosition, leftDeclared⟩
    have same : program.SameClass left position leftPosition :=
      ⟨declaration, _, declared, leftDeclared, rfl⟩
    exact ⟨left.classNode leftPosition, same.sameNode⟩
  · have present : program.memberAt? ⟨position, index⟩ = some member :=
      Program.memberAt?_eq_some_iff.mpr ⟨declaration, declared, has⟩
    rcases (cut.retains_iff present).mpr retained with ⟨leftPlace, same⟩
    exact ⟨left.memberNode leftPlace, same.sameNode⟩

/-- A name that a retained symbol has, or that nothing has, stands for the same
in both graphs. -/
theorem sameSymbol_named {name : String}
    (retained : (ofProgram program).nodeAt (.named name) ∈ reached)
    (used : ∃ edge ∈ program.pendingEdges, edge.target = .named name)
    (leftUsed : ∃ edge ∈ left.pendingEdges, edge.target = .named name) :
    (ofProgram program).SameSymbol (ofProgram left) (.named name) (.named name) := by
  -- The qualified name of a member that is not there may still be some class's name.
  by_cases defined : name ∈ program.symbolNames
  · rcases List.mem_iff_getElem?.mp defined with ⟨node, placed⟩
    rw [ProgramGraph.nodeAt_named cut.distinct placed] at retained
    rcases cut.symbol_left placed retained with ⟨leftNode, same⟩
    have leftPlaced := same.symbolNames_eq.symm.trans placed
    rw [ProgramGraph.SameSymbol, ProgramGraph.symbol?_named_eq_node cut.distinct placed,
      ProgramGraph.symbol?_named_eq_node cut.distinct_left leftPlaced]
    exact same.sameSymbol
  · have leftUndefined : name ∉ left.symbolNames := fun leftDefined =>
      defined (cut.symbolNames_sublist.mem leftDefined)
    exact ⟨(name, .boundary),
      ProgramGraph.symbol?_boundary defined
        ((Program.mem_boundaryNames_iff name).mpr ⟨defined, used⟩),
      ProgramGraph.symbol?_boundary leftUndefined
        ((Program.mem_boundaryNames_iff name).mpr ⟨leftUndefined, leftUsed⟩)⟩

theorem sameSymbol_classTarget {name : String}
    (retained : (ofProgram program).nodeAt (program.classTarget name) ∈ reached)
    (used : ∃ edge ∈ program.pendingEdges, edge.target = program.classTarget name)
    (leftUsed : ∃ edge ∈ left.pendingEdges, edge.target = left.classTarget name) :
    (ofProgram program).SameSymbol (ofProgram left) (program.classTarget name)
      (left.classTarget name) := by
  have classRetained (position : Nat) (found : program.position? name = some position) :
      program.classNode position ∈ reached := by
    rwa [Program.classTarget_eq_node found] at retained
  rcases optionRel_cases (cut.position?_related classRetained) with
    ⟨absent, leftAbsent⟩ | ⟨position, leftPosition, found, leftFound, same⟩
  · rw [Program.classTarget_eq_named absent] at retained used ⊢
    rw [Program.classTarget_eq_named leftAbsent] at leftUsed ⊢
    exact cut.sameSymbol_named retained used leftUsed
  · rw [Program.classTarget_eq_node found, Program.classTarget_eq_node leftFound]
    exact same.sameNode.sameSymbol

/-! ## References -/

section References

variable {position index : Nat} {declaration : ClassDecl} {member : Member}
  {reference : Reference} {signature : Signature}
  (declared : program.classes[position]? = some declaration)
  (has : declaration.members[index]? = some member)
  (retained : program.memberNode ⟨position, index⟩ ∈ reached)
  (refers : reference ∈ member.references)

include declared has retained refers

theorem referenceOwner_related (asks : reference.signature? = some signature) :
    Option.Rel (program.SameClass left) (program.position? reference.owner)
      (left.position? reference.owner) := by
  have isMember : reference.name.isSome := by
    rcases Option.map_eq_some_iff.mp asks with ⟨name, named, _⟩
    rw [named]
    rfl
  exact cut.position?_related fun _ found =>
    cut.owner_of_reference declared has retained refers isMember found

theorem referenceLookup_related (asks : reference.signature? = some signature)
    {owner leftOwner : Nat} (found : program.position? reference.owner = some owner)
    (same : program.SameClass left owner leftOwner) :
    Lookup.Same (program.SameMember left) (program.lookup owner signature)
      (left.lookup leftOwner signature) := by
  apply cut.lookup_related same
  intro method binds
  have target := cut.target_of_reference declared has retained refers
  rwa [Program.referenceTarget_eq_node asks found binds] at target

theorem sameSymbol_referenceTarget
    (leftUsed : ∃ edge ∈ left.pendingEdges, edge.target = left.referenceTarget reference) :
    (ofProgram program).SameSymbol (ofProgram left) (program.referenceTarget reference)
      (left.referenceTarget reference) := by
  have target := cut.target_of_reference declared has retained refers
  have used : ∃ edge ∈ program.pendingEdges, edge.target = program.referenceTarget reference :=
    ⟨_, Program.reference_edge declared has refers, rfl⟩
  cases asks : reference.signature? with
  | none =>
      rw [Program.referenceTarget_eq_classTarget asks] at target used leftUsed ⊢
      rw [Program.referenceTarget_eq_classTarget asks]
      exact cut.sameSymbol_classTarget target used leftUsed
  | some signature =>
      -- Where no lookup finds a declaration, the name decides in both graphs.
      have named (unbound : ∀ owner, program.position? reference.owner = some owner →
            ∀ method, program.lookup owner signature ≠ .found method)
          (leftUnbound : ∀ owner, left.position? reference.owner = some owner →
            ∀ method, left.lookup owner signature ≠ .found method) :
          (ofProgram program).SameSymbol (ofProgram left) (program.referenceTarget reference)
            (left.referenceTarget reference) := by
        rw [Program.referenceTarget_eq_named asks unbound] at target used ⊢
        rw [Program.referenceTarget_eq_named asks leftUnbound] at leftUsed ⊢
        exact cut.sameSymbol_named target used leftUsed
      rcases optionRel_cases
        (cut.referenceOwner_related declared has retained refers asks) with
        ⟨absent, leftAbsent⟩ | ⟨owner, leftOwner, found, leftFound, same⟩
      · apply named
        · simp [absent]
        · simp [leftAbsent]
      · have answers := cut.referenceLookup_related declared has retained refers asks found same
        generalize binds : program.lookup owner signature = answer at answers
        generalize leftBinds : left.lookup leftOwner signature = leftAnswer at answers
        cases answers with
        | found sameMember =>
            rw [Program.referenceTarget_eq_node asks found binds,
              Program.referenceTarget_eq_node asks leftFound leftBinds]
            exact sameMember.sameNode.sameSymbol
        | maybeInherited =>
            apply named
            · simp [found, binds]
            · simp [leftFound, leftBinds]
        | missing =>
            apply named
            · simp [found, binds]
            · simp [leftFound, leftBinds]

end References

/-! ## Construction -/

theorem resolved_left : left.firstUnresolved? = none := by
  rw [Program.firstUnresolved?_eq_none_iff]
  intro kept keptLeft keptMember memberLeft reference refers signature leftOwner asks leftFound
    leftMissing
  rcases cut.original_of_member keptLeft memberLeft with
    ⟨position, index, declaration, member, declared, has, retained, rfl⟩
  rcases optionRel_cases (cut.referenceOwner_related declared has retained refers asks) with
    ⟨_, leftAbsent⟩ | ⟨owner, _, found, sameFound, same⟩
  · rw [leftFound] at leftAbsent
    cases leftAbsent
  · obtain rfl : leftOwner = _ := Option.some.inj (leftFound.symm.trans sameFound)
    have answers := cut.referenceLookup_related declared has retained refers asks found same
    rw [leftMissing] at answers
    have resolves := Program.firstUnresolved?_eq_none_iff.mp cut.resolved declaration
      (List.mem_of_getElem? declared) member (List.mem_of_getElem? has) reference refers
      signature owner asks found
    generalize program.lookup owner signature = answer at answers resolves
    cases answers
    exact resolves rfl

theorem build_left (parallel : Bool) : ProgramGraph.build left parallel = .ok (ofProgram left) :=
  ProgramGraph.build_eq_ok_iff.mpr ⟨cut.distinct_left, cut.resolved_left, rfl⟩

theorem tag_left {tags : List String} {tag : String}
    (live : tag ∈ program.liveTags reached tags)
    (named : ∃ declaration ∈ program.classes, declaration.name = tag) :
    ∃ kept ∈ left.classes, kept.name = tag := by
  rcases named with ⟨declaration, declared, rfl⟩
  rcases List.mem_iff_getElem?.mp declared with ⟨position, declared⟩
  have found : program.position? declaration.name = some position :=
    (Program.position?_eq_some_iff cut.distinct declaration.name).mpr ⟨declaration, declared, rfl⟩
  have retained : program.classNode position ∈ reached := by
    have notRemoved := (List.mem_filter.mp live).2
    simp only [Program.namesRemovedClass, found] at notRemoved
    simpa using notRemoved
  rcases cut.class_left declared retained with ⟨_, leftDeclared⟩
  exact ⟨_, List.mem_of_getElem? leftDeclared, rfl⟩

end Cut

/-! ## What is named -/

/-- What a class of what is left names, in its declaration and in the code of its
members, is what the names stood for in the whole program. -/
structure ProgramGraph.KeepsBindings (graph left : ProgramGraph) (declaration : ClassDecl) :
    Prop where
  parents : ∀ name, declaration.superclass = some name ∨ name ∈ declaration.interfaces →
    graph.SameSymbol left (graph.classTarget name) (left.classTarget name)
  references : ∀ member ∈ declaration.members, ∀ reference ∈ member.references,
    ∃ target leftTarget,
      graph.referenceTarget (member.qualifiedName declaration.name) reference = .ok target ∧
      left.referenceTarget (member.qualifiedName declaration.name) reference = .ok leftTarget ∧
      graph.SameSymbol left target leftTarget
  tags : ∀ tag, (tag ∈ declaration.annotations ∨
      ∃ member ∈ declaration.members, tag ∈ member.annotations) →
    (∃ named ∈ graph.program.classes, named.name = tag) →
      ∃ named ∈ left.program.classes, named.name = tag

theorem Cut.keepsBindings {program left : Program} {reached : List Nat}
    (cut : Cut program left reached) {kept : ClassDecl} (keptLeft : kept ∈ left.classes) :
    (ofProgram program).KeepsBindings (ofProgram left) kept := by
  rcases List.mem_iff_getElem?.mp keptLeft with ⟨leftPosition, leftDeclared⟩
  rcases cut.class_original leftDeclared with ⟨position, declaration, declared, retained, rfl⟩
  refine ⟨?_, ?_, ?_⟩
  · intro name parent
    rcases Program.parent_edge declared parent with ⟨_, _, pending⟩
    rcases Program.parent_edge leftDeclared parent with ⟨_, _, leftPending⟩
    rw [ProgramGraph.classTarget_ofProgram, ProgramGraph.classTarget_ofProgram]
    exact cut.sameSymbol_classTarget (cut.parentTarget_of_class declared retained parent)
      ⟨_, pending, rfl⟩ ⟨_, leftPending, rfl⟩
  · intro keptMember memberLeft reference refers
    rcases List.mem_iff_getElem?.mp memberLeft with ⟨leftIndex, leftHas⟩
    rcases (Program.mem_thinned_iff keptMember).mp memberLeft with
      ⟨index, member, has, memberRetained, rfl⟩
    refine ⟨program.referenceTarget reference, left.referenceTarget reference, ?_, ?_, ?_⟩
    · exact ProgramGraph.referenceTarget_eq_ok cut.resolved (List.mem_of_getElem? declared)
        (List.mem_of_getElem? has) refers _
    · exact ProgramGraph.referenceTarget_eq_ok cut.resolved_left keptLeft memberLeft refers _
    · exact cut.sameSymbol_referenceTarget declared has memberRetained refers
        ⟨_, Program.reference_edge leftDeclared leftHas refers, rfl⟩
  · intro tag tagged named
    rcases tagged with onClass | ⟨keptMember, memberLeft, onMember⟩
    · exact cut.tag_left onClass named
    · rcases (Program.mem_thinned_iff keptMember).mp memberLeft with ⟨_, _, _, _, rfl⟩
      exact cut.tag_left onMember named

/-- After a pass there is a graph of what is left, and all that is named in it
is what was named before. -/
theorem Shrink.remainder_keeps_bindings {config : Config} {program : Program} {outcome : Outcome}
    (ran : run config program = .ok outcome) :
    ∃ graph left, (∀ parallel, ProgramGraph.build program parallel = .ok graph ∧
        ProgramGraph.build outcome.program parallel = .ok left) ∧
      ∀ declaration ∈ outcome.program.classes, graph.KeepsBindings left declaration := by
  rcases runWith_eq_ok ran with ⟨reached, cut⟩
  refine ⟨ofProgram program, ofProgram outcome.program, fun parallel => ?_,
    fun _ keptLeft => cut.keepsBindings keptLeft⟩
  exact ⟨ProgramGraph.build_eq_ok_iff.mpr ⟨cut.distinct, cut.resolved, rfl⟩,
    cut.build_left parallel⟩

theorem Callback.bindings_kept :
    ∃ outcome, Shrink.run config program = .ok outcome ∧
      ∃ graph left, ProgramGraph.build program = .ok graph ∧
        ProgramGraph.build outcome.program = .ok left ∧
        graph.KeepsBindings left (jobClass ["Main"]) ∧ graph.KeepsBindings left mainClass := by
  rcases run_eq_ok with ⟨outcome, ran, isLeft⟩
  rcases Shrink.remainder_keeps_bindings ran with ⟨graph, leftGraph, built, keeps⟩
  rcases built false with ⟨graphBuilt, leftBuilt⟩
  have job : jobClass ["Main"] ∈ outcome.program.classes := by
    rw [isLeft]
    decide
  have main : mainClass ∈ outcome.program.classes := by
    rw [isLeft]
    decide
  exact ⟨outcome, ran, graph, leftGraph, graphBuilt, leftBuilt, keeps _ job, keeps _ main⟩

end ClassShrink
