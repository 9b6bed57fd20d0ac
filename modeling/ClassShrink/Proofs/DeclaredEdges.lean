import ClassShrink.Proofs.OverridePairs
import ClassShrink.Proofs.Precedence

/-! # Exactly the edges of a graph

The edges of a graph are those that the declarations of its program and its
override pairs call for, each of them once. The boundary symbols stand for the
names that are used there and that nothing in the program has; edges lead to each
of them and from none. -/

namespace ClassShrink

open ProgramGraph (ofProgram)

namespace Program

variable {program : Program} {name : String} {reference : Reference} {node : Nat}
  {place : MemberPosition} {signature : Signature}

/-! ## What names denote -/

/-- The name of a class denotes the class of the program that has it, and without
such a class the node that has it. -/
inductive DenotesClass (program : Program) (graph : ProgramGraph) (name : String) : Nat → Prop
  | declared {position : Nat} {declaration : ClassDecl} :
      program.classes[position]? = some declaration → declaration.name = name →
        DenotesClass program graph name (graph.classNode position)
  | external {node : Nat} :
      program.External name → graph.names[node]? = some name →
        DenotesClass program graph name node

/-- A class reference denotes what the name of its class does, a member reference
the declaration that it binds to, and one that binds to none the node that has its
name. -/
inductive Denotes (program : Program) (graph : ProgramGraph) (reference : Reference) : Nat → Prop
  | classReference {node : Nat} :
      reference.signature? = none → program.DenotesClass graph reference.owner node →
        Denotes program graph reference node
  | bound {place : MemberPosition} :
      program.Binds reference place →
        Denotes program graph reference (graph.memberNode place.owner place.index)
  | unbound {signature : Signature} {node : Nat} :
      reference.signature? = some signature → (∀ place, ¬program.Binds reference place) →
      graph.names[node]? = some (signature.key reference.owner) →
        Denotes program graph reference node

theorem Binds.unique (distinct : program.symbolNames.Nodup) {other : MemberPosition}
    (binds : program.Binds reference place) (otherBinds : program.Binds reference other) :
    place = other := by
  rcases (binds_iff distinct).mp binds with ⟨signature, owner, asks, found, finds⟩
  rcases (binds_iff distinct).mp otherBinds with ⟨_, _, otherAsks, otherFound, otherFinds⟩
  cases asks.symm.trans otherAsks
  cases found.symm.trans otherFound
  exact Lookup.found.inj (finds.symm.trans otherFinds)

theorem Binds.declared (binds : program.Binds reference place) :
    ∃ declaration member, program.classes[place.owner]? = some declaration ∧
      declaration.members[place.index]? = some member := by
  rcases binds with ⟨signature, owner, _, _, _, _, finds⟩
  exact exists_member_of_lookup finds

/-- As names are distinct, a class is told apart from other nodes by its name alone. -/
theorem denotesClass_iff (distinct : program.symbolNames.Nodup) :
    program.DenotesClass (ofProgram program) name node ↔
      program.nodeNames[node]? = some name := by
  have names := ProgramGraph.names_ofProgram program
  constructor
  · rintro (⟨declared, rfl⟩ | ⟨_, named⟩)
    · rw [ProgramGraph.classNode_eq declared]
      exact ProgramGraph.nodeNames_getElem? (symbolNames_classNode declared)
    · exact names ▸ named
  · intro named
    cases found : program.position? name with
    | none => exact .external ((position?_eq_none_iff name).mp found) (names ▸ named)
    | some position =>
        rcases (position?_eq_some_iff distinct name).mp found with ⟨declaration, declared, rfl⟩
        rw [ProgramGraph.node_unique distinct named
          (ProgramGraph.nodeNames_getElem? (symbolNames_classNode declared)),
          ← ProgramGraph.classNode_eq declared]
        exact .declared declared rfl

theorem denotes_iff_of_class {graph : ProgramGraph} (isClass : reference.signature? = none) :
    program.Denotes graph reference node ↔ program.DenotesClass graph reference.owner node := by
  constructor
  · rintro (⟨_, denotes⟩ | ⟨_, _, _, asks, _⟩ | ⟨asks, _, _⟩)
    · exact denotes
    · cases isClass.symm.trans asks
    · cases isClass.symm.trans asks
  · exact .classReference isClass

theorem denotes_iff_of_binds {graph : ProgramGraph} (distinct : program.symbolNames.Nodup)
    (binds : program.Binds reference place) :
    program.Denotes graph reference node ↔ node = graph.memberNode place.owner place.index := by
  constructor
  · rintro (⟨isClass, _⟩ | other | ⟨_, unbound, _⟩)
    · rcases binds with ⟨_, _, _, asks, _⟩
      cases isClass.symm.trans asks
    · rw [other.unique distinct binds]
    · exact absurd binds (unbound place)
  · rintro rfl
    exact .bound binds

theorem denotes_iff_of_unbound {graph : ProgramGraph}
    (asks : reference.signature? = some signature)
    (unbound : ∀ place, ¬program.Binds reference place) :
    program.Denotes graph reference node ↔
      graph.names[node]? = some (signature.key reference.owner) := by
  constructor
  · rintro (⟨isClass, _⟩ | bound | ⟨asksOther, _, named⟩)
    · cases asks.symm.trans isClass
    · exact absurd bound (unbound _)
    · cases asks.symm.trans asksOther
      exact named
  · exact .unbound asks unbound

theorem denotes_iff (distinct : program.symbolNames.Nodup) :
    program.Denotes (ofProgram program) reference node ↔
      program.nodeNames[node]? =
        some (program.targetName (program.referenceTarget reference)) := by
  cases asks : reference.signature? with
  | none =>
      rw [denotes_iff_of_class asks, denotesClass_iff distinct, referenceTarget_eq_classTarget asks,
        targetName_classTarget distinct]
  | some signature =>
      by_cases binds : ∃ place, program.Binds reference place
      · rcases binds with ⟨place, binds⟩
        rcases binds.declared with ⟨declaration, member, declared, has⟩
        have placed := symbolNames_memberNode declared has
        have inGraph := ProgramGraph.nodeNames_getElem? placed
        rw [denotes_iff_of_binds distinct binds, ProgramGraph.memberNode_eq declared has,
          referenceTarget_of_binds distinct binds, targetName, placed, Option.getD_some]
        constructor
        · rintro rfl
          exact inGraph
        · intro named
          exact ProgramGraph.node_unique distinct named inGraph
      · rw [not_exists] at binds
        rw [denotes_iff_of_unbound asks binds, referenceTarget_of_unbound distinct asks binds,
          ProgramGraph.names_ofProgram, targetName]

/-! ## Edges from declarations -/

/-- The edges that declarations call for: from a class to its parents, from a member
to its class, to what its references denote and to their owners, and from both to
the classes that their tags name. -/
inductive DeclaresEdge (program : Program) (graph : ProgramGraph) : Edge → Prop
  | superclass {position node : Nat} {declaration : ClassDecl} {name : String} :
      program.classes[position]? = some declaration → declaration.superclass = some name →
      program.DenotesClass graph name node →
        DeclaresEdge program graph ⟨graph.classNode position, node, .extendsClass⟩
  | interface {position node : Nat} {declaration : ClassDecl} {name : String} :
      program.classes[position]? = some declaration → name ∈ declaration.interfaces →
      program.DenotesClass graph name node →
        DeclaresEdge program graph ⟨graph.classNode position, node, .implementsInterface⟩
  | classTag {position tagged : Nat} {declaration taggedClass : ClassDecl} :
      program.classes[position]? = some declaration →
      program.classes[tagged]? = some taggedClass → taggedClass.name ∈ declaration.annotations →
        DeclaresEdge program graph
          ⟨graph.classNode position, graph.classNode tagged, .annotatedBy⟩
  | memberTag {position index tagged : Nat} {declaration taggedClass : ClassDecl}
      {member : Member} :
      program.classes[position]? = some declaration →
      declaration.members[index]? = some member →
      program.classes[tagged]? = some taggedClass → taggedClass.name ∈ member.annotations →
        DeclaresEdge program graph
          ⟨graph.memberNode position index, graph.classNode tagged, .annotatedBy⟩
  | owner {position index : Nat} {declaration : ClassDecl} {member : Member} :
      program.classes[position]? = some declaration →
      declaration.members[index]? = some member →
        DeclaresEdge program graph
          ⟨graph.memberNode position index, graph.classNode position, .references⟩
  | reference {position index node : Nat} {declaration : ClassDecl} {member : Member}
      {reference : Reference} :
      program.classes[position]? = some declaration →
      declaration.members[index]? = some member → reference ∈ member.references →
      program.Denotes graph reference node →
        DeclaresEdge program graph ⟨graph.memberNode position index, node, .references⟩
  | referenceOwner {position index owner : Nat} {declaration ownerClass : ClassDecl}
      {member : Member} {reference : Reference} :
      program.classes[position]? = some declaration →
      declaration.members[index]? = some member → reference ∈ member.references →
      reference.name.isSome → program.classes[owner]? = some ownerClass →
      ownerClass.name = reference.owner →
        DeclaresEdge program graph
          ⟨graph.memberNode position index, graph.classNode owner, .references⟩

theorem named_iff_nodeAt_eq (distinct : program.symbolNames.Nodup) {source : Nat}
    {target : Target} (links : program.Links source target) :
    program.nodeNames[node]? = some (program.targetName target) ↔
      (ofProgram program).nodeAt target = node := by
  have named := ProgramGraph.names_of_links distinct links
  constructor
  · intro placed
    exact ProgramGraph.node_unique distinct named placed
  · rintro rfl
    exact named

theorem denotesClass_iff_nodeAt_eq (distinct : program.symbolNames.Nodup) {source : Nat}
    (links : program.Links source (program.classTarget name)) :
    program.DenotesClass (ofProgram program) name node ↔
      (ofProgram program).nodeAt (program.classTarget name) = node := by
  rw [← named_iff_nodeAt_eq distinct links, targetName_classTarget distinct,
    denotesClass_iff distinct]

theorem denotes_iff_nodeAt_eq (distinct : program.symbolNames.Nodup) {source : Nat}
    (links : program.Links source (program.referenceTarget reference)) :
    program.Denotes (ofProgram program) reference node ↔
      (ofProgram program).nodeAt (program.referenceTarget reference) = node := by
  rw [← named_iff_nodeAt_eq distinct links, denotes_iff distinct]

theorem declaresEdge_iff (distinct : program.symbolNames.Nodup) {edge : Edge} :
    program.DeclaresEdge (ofProgram program) edge ↔
      ∃ pending, program.Pending pending ∧
        edge = ⟨pending.source, (ofProgram program).nodeAt pending.target, pending.kind⟩ := by
  constructor
  · intro declares
    cases declares with
    | superclass declared superclass denotes =>
        have links := Links.parent declared (.inl superclass)
        rw [← (denotesClass_iff_nodeAt_eq distinct links).mp denotes,
          ProgramGraph.classNode_eq declared]
        exact ⟨_, .superclass declared superclass, rfl⟩
    | interface declared interface denotes =>
        have links := Links.parent declared (.inr interface)
        rw [← (denotesClass_iff_nodeAt_eq distinct links).mp denotes,
          ProgramGraph.classNode_eq declared]
        exact ⟨_, .interface declared interface, rfl⟩
    | classTag declared taggedDeclared isTag =>
        have found := (position?_eq_some_iff distinct _).mpr ⟨_, taggedDeclared, rfl⟩
        rw [ProgramGraph.classNode_eq declared, ProgramGraph.classNode_eq taggedDeclared]
        exact ⟨_, .classTag declared isTag found, rfl⟩
    | memberTag declared has taggedDeclared isTag =>
        have found := (position?_eq_some_iff distinct _).mpr ⟨_, taggedDeclared, rfl⟩
        rw [ProgramGraph.memberNode_eq declared has, ProgramGraph.classNode_eq taggedDeclared]
        exact ⟨_, .memberTag declared has isTag found, rfl⟩
    | owner declared has =>
        rw [ProgramGraph.memberNode_eq declared has, ProgramGraph.classNode_eq declared]
        exact ⟨_, .owner declared has, rfl⟩
    | reference declared has refers denotes =>
        have links := Links.reference declared has refers
        rw [← (denotes_iff_nodeAt_eq distinct links).mp denotes,
          ProgramGraph.memberNode_eq declared has]
        exact ⟨_, .reference declared has refers, rfl⟩
    | referenceOwner declared has refers isMember ownerDeclared named =>
        have found := (position?_eq_some_iff distinct _).mpr ⟨_, ownerDeclared, named⟩
        rw [ProgramGraph.memberNode_eq declared has, ProgramGraph.classNode_eq ownerDeclared]
        exact ⟨_, .referenceOwner declared has refers isMember found, rfl⟩
  · rintro ⟨pending, isPending, rfl⟩
    cases isPending with
    | superclass declared superclass =>
        have links := Links.parent declared (.inl superclass)
        rw [← ProgramGraph.classNode_eq declared]
        exact .superclass declared superclass
          ((denotesClass_iff_nodeAt_eq distinct links).mpr rfl)
    | interface declared interface =>
        have links := Links.parent declared (.inr interface)
        rw [← ProgramGraph.classNode_eq declared]
        exact .interface declared interface
          ((denotesClass_iff_nodeAt_eq distinct links).mpr rfl)
    | classTag declared isTag found =>
        rcases (position?_eq_some_iff distinct _).mp found with ⟨tagged, taggedDeclared, rfl⟩
        rw [← ProgramGraph.classNode_eq declared, ← ProgramGraph.classNode_eq taggedDeclared]
        exact .classTag declared taggedDeclared isTag
    | memberTag declared has isTag found =>
        rcases (position?_eq_some_iff distinct _).mp found with ⟨tagged, taggedDeclared, rfl⟩
        rw [← ProgramGraph.memberNode_eq declared has, ← ProgramGraph.classNode_eq taggedDeclared]
        exact .memberTag declared has taggedDeclared isTag
    | owner declared has =>
        rw [← ProgramGraph.memberNode_eq declared has, ← ProgramGraph.classNode_eq declared]
        exact .owner declared has
    | reference declared has refers =>
        have links := Links.reference declared has refers
        rw [← ProgramGraph.memberNode_eq declared has]
        exact .reference declared has refers ((denotes_iff_nodeAt_eq distinct links).mpr rfl)
    | referenceOwner declared has refers isMember found =>
        rcases (position?_eq_some_iff distinct _).mp found with ⟨owner, ownerDeclared, named⟩
        rw [← ProgramGraph.memberNode_eq declared has, ← ProgramGraph.classNode_eq ownerDeclared]
        exact .referenceOwner declared has refers isMember ownerDeclared named

theorem DeclaresEdge.kind_ne_overrides {graph : ProgramGraph} {edge : Edge}
    (declares : program.DeclaresEdge graph edge) : edge.kind ≠ .overrides := by
  cases declares <;> exact EdgeKind.noConfusion

theorem Pending.source_lt {edge : PendingEdge} (pending : program.Pending edge) :
    edge.source < program.symbolNames.length := by
  cases pending with
  | superclass declared => exact classNode_lt declared
  | interface declared => exact classNode_lt declared
  | classTag declared => exact classNode_lt declared
  | memberTag declared has => exact memberNode_lt declared has
  | owner declared has => exact memberNode_lt declared has
  | reference declared has => exact memberNode_lt declared has
  | referenceOwner declared has => exact memberNode_lt declared has

/-! ## Edges from override pairs -/

inductive OverrideEdge (program : Program) (graph : ProgramGraph) : Edge → Prop
  | method {overrider overridden : MemberPosition} :
      program.PairsMethods overrider overridden →
        OverrideEdge program graph
          ⟨graph.memberNode overrider.owner overrider.index,
            graph.memberNode overridden.owner overridden.index, .overrides⟩
  | library {position node : Nat} {receiver : ClassDecl} {signature : Signature}
      {upper : String} {overrider : MemberPosition} :
      program.classes[position]? = some receiver →
      program.NearestVirtual signature position overrider →
      program.IsSupertype receiver.name upper → node ∈ graph.view.boundaries →
      graph.view.name node = signature.key upper →
        OverrideEdge program graph
          ⟨graph.memberNode overrider.owner overrider.index, node, .overrides⟩

theorem HasVirtual.node_lt {method : MemberPosition}
    (has : program.HasVirtual signature method) :
    program.memberNode method < program.symbolNames.length := by
  rcases has.placed with ⟨_, _, placed⟩
  exact (List.getElem?_eq_some_iff.mp placed).1

theorem overrideEdge_iff (distinct : program.symbolNames.Nodup) {edge : Edge} :
    program.OverrideEdge (ofProgram program) edge ↔
      (edge.source, edge.target) ∈ (ofProgram program).overridePairs ∧
        edge.kind = .overrides := by
  simp only [mem_overridePairs_iff distinct, mem_methodPairs_iff_paired distinct,
    mem_libraryPairs_iff_paired distinct]
  constructor
  · rintro (paired | ⟨declared, nearest, above, isBoundary, named⟩)
    · rcases hasVirtual_of_mem_methodPairs distinct
        ((mem_methodPairs_iff_paired distinct).mpr paired) with ⟨_, has, otherHas⟩
      exact ⟨.inl ⟨_, _, paired, has.memberNode_eq, otherHas.memberNode_eq⟩, rfl⟩
    · have found := (ProgramGraph.boundary?_eq_some_iff_named distinct).mpr ⟨isBoundary, named⟩
      have isNode := nearest.mem_chain.2.2.memberNode_eq
      exact ⟨.inr ⟨_, ⟨_, _, _, _, declared, nearest, above, found⟩, isNode⟩, rfl⟩
  · rcases edge with ⟨source, target, kind⟩
    rintro ⟨⟨method, other, paired, rfl, rfl⟩ |
      ⟨method, ⟨position, receiver, signature, upper, declared, nearest, above, found⟩, rfl⟩, rfl⟩
    · rcases hasVirtual_of_mem_methodPairs distinct
        ((mem_methodPairs_iff_paired distinct).mpr paired) with ⟨_, has, otherHas⟩
      rw [← has.memberNode_eq, ← otherHas.memberNode_eq]
      exact .method paired
    · rcases (ProgramGraph.boundary?_eq_some_iff_named distinct).mp found with
        ⟨isBoundary, named⟩
      rw [← nearest.mem_chain.2.2.memberNode_eq]
      exact .library declared nearest above isBoundary named

end Program

namespace ProgramGraph

variable {program : Program} {graph : ProgramGraph} {node : Nat}

theorem mem_edges_iff (distinct : program.symbolNames.Nodup) (edge : Edge) :
    edge ∈ (ofProgram program).edges ↔
      program.DeclaresEdge (ofProgram program) edge ∨
        program.OverrideEdge (ofProgram program) edge := by
  rw [ofProgram_edges, List.mem_append, List.mem_eraseDups, List.mem_map,
    Program.declaresEdge_iff distinct, Program.overrideEdge_iff distinct]
  refine or_congr ?_ ?_
  · simp only [Program.mem_pendingEdges_iff, eq_comm]
  · rcases edge with ⟨source, target, kind⟩
    simp only [List.mem_map, Prod.exists, Edge.mk.injEq]
    constructor
    · rintro ⟨overrider, overridden, paired, rfl, rfl, rfl⟩
      exact ⟨paired, rfl⟩
    · rintro ⟨paired, rfl⟩
      exact ⟨source, target, paired, rfl, rfl, rfl⟩

/-! ## No edge twice -/

theorem overridePairs_nodup (distinct : program.symbolNames.Nodup) :
    (ofProgram program).overridePairs.Nodup := by
  have differ {left right : Nat × Nat} (less : Prod.Lex (· < ·) (· < ·) left right) :
      left ≠ right := by
    rintro rfl
    rw [Prod.lex_def] at less
    omega
  rw [Program.overridePairs_eq distinct]
  refine List.pairwise_append.mpr ⟨(Program.methodPairs_nodes_pairwise distinct).imp differ,
    (Program.libraryPairs_nodes_pairwise distinct _).imp differ, ?_⟩
  -- The overridden symbol is one of the program in the first list and not in the second.
  simp only [List.mem_map, forall_exists_index, and_imp, forall_apply_eq_imp_iff₂, ne_eq,
    Prod.mk.injEq, not_and]
  rintro ⟨method, other⟩ ofMethods ⟨overrider, boundary⟩ ofLibrary _
  rcases Program.hasVirtual_of_mem_methodPairs distinct ofMethods with ⟨_, _, has⟩
  rcases Program.hasVirtual_of_mem_libraryPairs distinct ofLibrary with ⟨_, _, _, found⟩
  have inside := has.node_lt
  have outside : program.symbolNames.length ≤ boundary :=
    length_le_of_mem_boundaries ((boundary?_eq_some_iff_named distinct).mp found).1
  omega

theorem edges_nodup (distinct : program.symbolNames.Nodup) :
    (ofProgram program).edges.Nodup := by
  rw [ofProgram_edges]
  refine List.Nodup.append (Worklist.nodup_eraseDups _) ?_ ?_
  · refine (overridePairs_nodup distinct).map ?_
    rintro ⟨overrider, overridden⟩ ⟨otherOverrider, otherOverridden⟩ equal
    cases equal
    rfl
  · -- The two kinds of edges differ in what they say about their ends.
    intro edge ofDeclaration ofPair
    rcases List.mem_map.mp ofPair with ⟨_, _, equal⟩
    rcases List.mem_map.mp (List.mem_eraseDups.mp ofDeclaration) with ⟨pending, isPending, rfl⟩
    exact (Program.mem_pendingEdges_iff.mp isPending).kind_ne_overrides
      (congrArg Edge.kind equal).symm

end ProgramGraph

/-! ## Boundary symbols -/

namespace ProgramGraph

variable {program : Program} {graph : ProgramGraph} {node : Nat}

theorem boundaries_map_name :
    (ofProgram program).view.boundaries.map (ofProgram program).view.name =
      program.boundaryNames := by
  apply List.ext_getElem?
  intro offset
  rw [boundaries_eq, List.map_map, List.getElem?_map]
  by_cases within : offset < program.boundaryNames.length
  · simp [view_name, nodeNames_boundary, within]
  · simp [Nat.not_lt.mp within]

theorem exists_edge_to_boundary (distinct : program.symbolNames.Nodup)
    (isBoundary : node ∈ (ofProgram program).view.boundaries) :
    ∃ edge ∈ (ofProgram program).edges, edge.target = node := by
  rcases boundary?_eq_some_iff.mp
    ((boundary?_eq_some_iff_named distinct).mpr ⟨isBoundary, rfl⟩) with ⟨listed, isNode⟩
  rcases (Program.mem_boundaryNames_iff _).mp listed with ⟨_, pending, isPending, target⟩
  refine ⟨_, edge_of_pending isPending, ?_⟩
  rw [target]
  exact isNode.symm

theorem source_notMem_boundaries (distinct : program.symbolNames.Nodup) {edge : Edge}
    (present : edge ∈ (ofProgram program).edges) :
    edge.source ∉ (ofProgram program).view.boundaries := by
  intro isBoundary
  have outside : program.symbolNames.length ≤ edge.source :=
    length_le_of_mem_boundaries isBoundary
  rcases (mem_edges_iff distinct edge).mp present with declares | overrides
  · rcases (Program.declaresEdge_iff distinct).mp declares with ⟨pending, isPending, rfl⟩
    exact absurd isPending.source_lt (Nat.not_lt.mpr outside)
  · have paired := ((Program.overrideEdge_iff distinct).mp overrides).1
    rcases (Program.kinds_of_mem_overridePairs distinct paired).1 with ⟨_, method, has, isNode⟩
    exact absurd has.node_lt (Nat.not_lt.mpr (isNode ▸ outside))

end ProgramGraph

/-- A graph that is built has exactly the edges that the declarations of its program
and its override pairs call for, none of them twice. Its boundary symbols are one
for each name that is used and that nothing in the program has; edges lead to each
of them and from none. -/
theorem ProgramGraph.edges_exact {program : Program} {graph : ProgramGraph} {parallel : Bool}
    (built : ProgramGraph.build program parallel = .ok graph) :
    graph.names.Nodup ∧ graph.edges.Nodup ∧
    (∀ edge, edge ∈ graph.edges ↔
      program.DeclaresEdge graph edge ∨ program.OverrideEdge graph edge) ∧
    (∀ overrider overridden, program.OverrideEdge graph ⟨overrider, overridden, .overrides⟩ ↔
      (overrider, overridden) ∈ graph.overridePairs) ∧
    (∀ node, node ∈ graph.view.boundaries ↔
      graph.view.contains node ∧ graph.view.kind node = .boundary) ∧
    (graph.view.boundaries.map graph.view.name).Nodup ∧
    (∀ name, name ∈ graph.view.boundaries.map graph.view.name ↔
      program.UsesName name ∧ name ∉ program.symbolNames) ∧
    ∀ node ∈ graph.view.boundaries,
      (∃ edge ∈ graph.edges, edge.target = node) ∧ ∀ edge ∈ graph.edges, edge.source ≠ node := by
  rcases build_eq_ok_iff.mp built with ⟨distinct, _, rfl⟩
  refine ⟨names_ofProgram program ▸ names_nodup distinct, edges_nodup distinct,
    mem_edges_iff distinct, ?_, fun _ => mem_boundaries_iff_kind, ?_, ?_, ?_⟩
  · intro overrider overridden
    rw [Program.overrideEdge_iff distinct, and_iff_left rfl]
  · rw [boundaries_map_name]
    exact Worklist.nodup_eraseDups _
  · intro name
    rw [boundaries_map_name]
    exact Program.mem_boundaryNames_iff_usesName distinct
  · intro node isBoundary
    refine ⟨exists_edge_to_boundary distinct isBoundary, ?_⟩
    rintro edge present rfl
    exact source_notMem_boundaries distinct present isBoundary

namespace SharedName

/-! A class whose superclass has the name of a method of another class. That method
overrides one of the library. -/

def program : Program :=
  ⟨[{ name := "Shape", interfaces := ["Drawable"]
      members :=
        [{ kind := .method, name := "draw", descriptor := ""
           references := [{ owner := "Drawable", name := some "draw" }] }] },
    { name := "Circle", superclass := some "Shape.draw:", annotations := ["Shape"] }]⟩

/-- The superclass is the method and takes no boundary symbol, unlike the method of
the library. -/
theorem edges_of_shared_name :
    ∃ graph, ProgramGraph.build program = .ok graph ∧
      ⟨graph.classNode 1, graph.memberNode 0 0, .extendsClass⟩ ∈ graph.edges ∧
      ⟨graph.classNode 1, graph.classNode 0, .annotatedBy⟩ ∈ graph.edges ∧
      "Shape.draw:" ∉ graph.view.boundaries.map graph.view.name ∧
      "Drawable.draw:" ∈ graph.view.boundaries.map graph.view.name := by
  have built : ProgramGraph.build program = .ok (ofProgram program) :=
    ProgramGraph.build_eq_ok_iff.mpr ⟨by decide +kernel, by decide +kernel, rfl⟩
  rcases ProgramGraph.edges_exact built with ⟨_, _, edges, _, _, _, boundaries, _⟩
  have shape : program.classes[0]? = some program.classes[0] := rfl
  have circle : program.classes[1]? = some program.classes[1] := rfl
  have external : program.External "Shape.draw:" := by
    unfold Program.External
    decide +kernel
  have named : (ofProgram program).names[(ofProgram program).memberNode 0 0]? =
      some "Shape.draw:" := by
    decide +kernel
  have unbound : ∀ place, ¬program.Binds { owner := "Drawable", name := some "draw" } place := by
    rintro place ⟨_, _, declaration, _, declared, isOwner, _⟩
    have apart : ∀ declaration ∈ program.classes, declaration.name ≠ "Drawable" := by
      decide +kernel
    exact apart declaration (List.mem_of_getElem? declared) isOwner
  refine ⟨_, built, ?_, ?_, ?_, ?_⟩
  · exact (edges _).mpr (.inl (.superclass circle rfl (.external external named)))
  · exact (edges _).mpr (.inl (.classTag circle shape List.mem_cons_self))
  · rw [boundaries]
    rintro ⟨_, undefined⟩
    exact undefined (by decide +kernel)
  · rw [boundaries]
    refine ⟨?_, by decide +kernel⟩
    exact .memberReference List.mem_cons_self List.mem_cons_self List.mem_cons_self rfl unbound

end SharedName

end ClassShrink
