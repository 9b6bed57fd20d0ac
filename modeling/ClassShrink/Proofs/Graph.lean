import ClassShrink.Mark.Successors
import ClassShrink.Proofs.Construction
import ClassShrink.Proofs.Override

/-! # The graph of a program

What the graph of a program says about its symbols: their names and kinds, what
the names in declarations and references stand for, and which edges and override
pairs there are. -/

namespace ClassShrink

theorem MemberKind.symbolKind_ne_boundary (kind : MemberKind) : kind.symbolKind ≠ .boundary := by
  cases kind <;> simp [symbolKind]

namespace ProgramGraph

variable {program : Program}

def nodeAt (graph : ProgramGraph) (target : Target) : Nat :=
  (graph.settle target).2

@[simp] theorem nodeAt_node {graph : ProgramGraph} (node : Nat) :
    graph.nodeAt (.node node) = node := rfl

theorem nodeAt_ofProgram (target : Target) :
    (ofProgram program).nodeAt target = target.place program.nodeNames := by
  cases target with
  | node node => rfl
  | named name =>
      rw [nodeAt, settle, find?_ofProgram, Target.place, List.idxOf_eq_getD_idxOf?]
      cases program.nodeNames.idxOf? name with
      | none => exact size_ofProgram program
      | some node => rfl

theorem ofProgram_edges :
    (ofProgram program).edges =
      (program.pendingEdges.map fun edge =>
        Edge.mk edge.source ((ofProgram program).nodeAt edge.target) edge.kind).eraseDups ++
      (ofProgram program).overridePairs.map fun pair => Edge.mk pair.1 pair.2 .overrides := by
  simp only [nodeAt_ofProgram]
  rfl

/-! ## Symbols -/

variable {position index : Nat} {declaration : ClassDecl} {member : Member}

theorem view_name (node : Nat) :
    (ofProgram program).view.name node = program.nodeNames[node]?.getD "" := by
  rw [← names_ofProgram, names, List.getElem?_map]
  refine (Option.getD_map SymbolNode.name (.boundary "") _).symm

theorem view_contains (node : Nat) :
    (ofProgram program).view.contains node ↔ node < program.nodeNames.length := by
  rw [← size_ofProgram]
  exact decide_eq_true_iff

theorem kind_classNode (declared : program.classes[position]? = some declaration) :
    (ofProgram program).view.kind (program.classNode position) = .classDecl :=
  congrArg SymbolNode.kind (node_classNode declared)

theorem kind_memberNode (declared : program.classes[position]? = some declaration)
    (has : declaration.members[index]? = some member) :
    (ofProgram program).view.kind (program.memberNode ⟨position, index⟩) =
      member.kind.symbolKind :=
  congrArg SymbolNode.kind (node_memberNode declared has)

theorem kind_of_virtual {signature : Signature} {method : MemberPosition}
    (has : program.HasVirtual signature method) :
    (ofProgram program).view.kind (program.memberNode method) = .method := by
  rcases has with ⟨member, present, isVirtual, _⟩
  rcases Program.memberAt?_eq_some_iff.mp present with ⟨declaration, declared, has⟩
  have isMethod : member.kind = .method := by
    simp only [Member.isVirtual, Bool.and_eq_true, decide_eq_true_eq] at isVirtual
    exact isVirtual.1.1.1.1
  have kind := kind_memberNode declared has
  rw [isMethod] at kind
  exact kind

theorem kind_boundary {offset : Nat} (within : offset < program.boundaryNames.length) :
    (ofProgram program).view.kind (program.symbolNames.length + offset) = .boundary :=
  congrArg SymbolNode.kind (node_boundary (List.getElem?_eq_getElem within))

theorem boundaries_eq : (ofProgram program).view.boundaries =
    (List.range program.boundaryNames.length).map (program.symbolNames.length + ·) := rfl

theorem mem_boundaries_iff (node : Nat) :
    node ∈ (ofProgram program).view.boundaries ↔
      ∃ offset < program.boundaryNames.length, node = program.symbolNames.length + offset := by
  simp [boundaries_eq, eq_comm]

theorem nodeNames_length (program : Program) : program.nodeNames.length =
    program.symbolNames.length + program.boundaryNames.length := List.length_append

theorem boundaries_inside (node : Nat) (isBoundary : node ∈ (ofProgram program).view.boundaries) :
    (ofProgram program).view.contains node := by
  rcases (mem_boundaries_iff node).mp isBoundary with ⟨offset, within, equal⟩
  rw [view_contains, nodeNames_length, equal]
  omega

theorem length_le_of_mem_boundaries {node : Nat}
    (isBoundary : node ∈ (ofProgram program).view.boundaries) :
    program.symbolNames.length ≤ node := by
  rcases (mem_boundaries_iff node).mp isBoundary with ⟨offset, _, rfl⟩
  exact Nat.le_add_right _ _

theorem kind_ne_boundary {node : Nat} (isSymbol : node < program.symbolNames.length) :
    (ofProgram program).view.kind node ≠ .boundary := by
  rcases Program.exists_symbol isSymbol with
    ⟨position, declaration, declared, rfl⟩ |
      ⟨position, index, declaration, member, declared, has, rfl⟩
  · intro kind
    cases (kind_classNode declared).symm.trans kind
  · intro kind
    exact member.kind.symbolKind_ne_boundary ((kind_memberNode declared has).symm.trans kind)

theorem mem_boundaries_of_le {node : Nat} (inside : (ofProgram program).view.contains node)
    (outside : program.symbolNames.length ≤ node) :
    node ∈ (ofProgram program).view.boundaries := by
  rw [view_contains, nodeNames_length] at inside
  exact (mem_boundaries_iff node).mpr ⟨node - program.symbolNames.length, by omega, by omega⟩

theorem mem_boundaries_iff_kind {node : Nat} :
    node ∈ (ofProgram program).view.boundaries ↔
      (ofProgram program).view.contains node ∧ (ofProgram program).view.kind node = .boundary := by
  constructor
  · intro isBoundary
    refine ⟨boundaries_inside node isBoundary, ?_⟩
    rcases (mem_boundaries_iff node).mp isBoundary with ⟨offset, within, rfl⟩
    exact kind_boundary within
  · rintro ⟨inside, kind⟩
    exact mem_boundaries_of_le inside
      (Nat.not_lt.mp fun isSymbol => kind_ne_boundary isSymbol kind)

/-! ## What targets stand for -/

def symbol? (graph : ProgramGraph) (target : Target) : Option (String × SymbolKind) :=
  let node := graph.nodeAt target
  if graph.view.contains node then some (graph.view.name node, graph.view.kind node) else none

theorem symbol?_eq_some {target : Target} {name : String}
    (placed : program.nodeNames[(ofProgram program).nodeAt target]? = some name) :
    (ofProgram program).symbol? target =
      some (name, (ofProgram program).view.kind ((ofProgram program).nodeAt target)) := by
  have inside : (ofProgram program).view.contains ((ofProgram program).nodeAt target) :=
    (view_contains _).mpr (List.getElem?_eq_some_iff.mp placed).1
  simp [symbol?, inside, view_name, placed]

theorem nodeNames_boundary {offset : Nat} :
    program.nodeNames[program.symbolNames.length + offset]? = program.boundaryNames[offset]? := by
  rw [Program.nodeNames, Program.namesOf, List.getElem?_append_right (Nat.le_add_right _ _),
    Nat.add_sub_cancel_left, Program.boundaryNames]

theorem nodeNames_getElem? {node : Nat} {name : String}
    (placed : program.symbolNames[node]? = some name) : program.nodeNames[node]? = some name :=
  (List.getElem?_append_left (List.getElem?_eq_some_iff.mp placed).1).trans placed

theorem symbol?_classNode (declared : program.classes[position]? = some declaration) :
    (ofProgram program).symbol? (.node (program.classNode position)) =
      some (declaration.name, .classDecl) := by
  rw [symbol?_eq_some (nodeNames_getElem? (Program.symbolNames_classNode declared)), nodeAt_node,
    kind_classNode declared]

theorem symbol?_memberNode (declared : program.classes[position]? = some declaration)
    (has : declaration.members[index]? = some member) :
    (ofProgram program).symbol? (.node (program.memberNode ⟨position, index⟩)) =
      some (member.qualifiedName declaration.name, member.kind.symbolKind) := by
  rw [symbol?_eq_some (nodeNames_getElem? (Program.symbolNames_memberNode declared has)),
    nodeAt_node, kind_memberNode declared has]

theorem nodeAt_named (distinct : program.symbolNames.Nodup) {node : Nat} {name : String}
    (placed : program.symbolNames[node]? = some name) :
    (ofProgram program).nodeAt (.named name) = node := by
  rcases List.getElem?_eq_some_iff.mp placed with ⟨within, equal⟩
  have member : name ∈ program.symbolNames := List.mem_of_getElem? placed
  rw [nodeAt_ofProgram, Target.place]
  refine (List.idxOf_append_of_mem member).trans ?_
  rw [← equal, distinct.idxOf_getElem]

theorem symbol?_named_eq_node (distinct : program.symbolNames.Nodup) {node : Nat}
    {name : String} (placed : program.symbolNames[node]? = some name) :
    (ofProgram program).symbol? (.named name) = (ofProgram program).symbol? (.node node) := by
  unfold symbol?
  rw [nodeAt_named distinct placed]
  rfl

theorem symbol?_named_ne_boundary (distinct : program.symbolNames.Nodup) {name : String}
    (defined : name ∈ program.symbolNames) (other : String) :
    (ofProgram program).symbol? (.named name) ≠ some (other, .boundary) := by
  rcases List.mem_iff_getElem?.mp defined with ⟨node, placed⟩
  rw [symbol?_named_eq_node distinct placed]
  rcases Program.exists_symbol (List.getElem?_eq_some_iff.mp placed).1 with
    ⟨position, declaration, declared, rfl⟩ |
      ⟨position, index, declaration, member, declared, has, rfl⟩
  · intro boundary
    cases (symbol?_classNode declared).symm.trans boundary
  · intro boundary
    have symbol := (symbol?_memberNode declared has).symm.trans boundary
    exact member.kind.symbolKind_ne_boundary (congrArg Prod.snd (Option.some.inj symbol))

theorem nodeAt_boundary {name : String} (undefined : name ∉ program.symbolNames) :
    (ofProgram program).nodeAt (.named name) =
      program.symbolNames.length + program.boundaryNames.idxOf name := by
  rw [nodeAt_ofProgram, Target.place]
  exact List.idxOf_append_of_notMem undefined

theorem boundary?_eq_some {name : String} (undefined : name ∉ program.symbolNames)
    (used : name ∈ program.boundaryNames) :
    (ofProgram program).boundary? name = some ((ofProgram program).nodeAt (.named name)) := by
  rcases Option.isSome_iff_exists.mp (List.isSome_idxOf?.mpr used) with ⟨offset, found⟩
  rw [nodeAt_boundary undefined, boundary?_ofProgram, found, List.idxOf_eq_getD_idxOf?, found]
  rfl

theorem symbol?_boundary {name : String} (undefined : name ∉ program.symbolNames)
    (used : name ∈ program.boundaryNames) :
    (ofProgram program).symbol? (.named name) = some (name, .boundary) := by
  have within := List.idxOf_lt_length_of_mem used
  have node := nodeAt_boundary undefined
  have placed : program.nodeNames[(ofProgram program).nodeAt (.named name)]? = some name := by
    rw [node, Program.nodeNames, Program.namesOf, List.getElem?_append_right (by omega),
      Nat.add_sub_cancel_left]
    exact (List.getElem?_eq_getElem within).trans (congrArg some (List.getElem_idxOf within))
  rw [symbol?_eq_some placed, node, kind_boundary within]

end ProgramGraph

/-! ## Edges -/

namespace Program

variable {program : Program} {position index : Nat} {declaration : ClassDecl} {member : Member}

theorem classTarget_eq_node {name : String} (found : program.position? name = some position) :
    program.classTarget name = .node (program.classNode position) := by
  simp [classTarget, found]

theorem classTarget_eq_named {name : String} (absent : program.position? name = none) :
    program.classTarget name = .named name := by
  simp [classTarget, absent]

theorem referenceTarget_eq_node {reference : Reference} {signature : Signature} {owner : Nat}
    {method : MemberPosition} (asks : reference.signature? = some signature)
    (found : program.position? reference.owner = some owner)
    (binds : program.lookup owner signature = .found method) :
    program.referenceTarget reference = .node (program.memberNode method) := by
  simp [referenceTarget, asks, found, binds]

/-- A member reference that binds to no declaration stands for what has its
name. -/
theorem referenceTarget_cases {reference : Reference} {signature : Signature}
    (asks : reference.signature? = some signature) :
    (∃ owner method, program.position? reference.owner = some owner ∧
      program.lookup owner signature = .found method ∧
      program.referenceTarget reference = .node (program.memberNode method)) ∨
    program.referenceTarget reference = .named (signature.key reference.owner) := by
  have name : reference.qualifiedName = signature.key reference.owner := by
    simp [Reference.qualifiedName, asks]
  cases found : program.position? reference.owner with
  | none => exact .inr (by simp [referenceTarget, asks, found, name])
  | some owner =>
      cases binds : program.lookup owner signature with
      | found method =>
          exact .inl ⟨owner, method, rfl, binds, referenceTarget_eq_node asks found binds⟩
      | maybeInherited => exact .inr (by simp [referenceTarget, asks, found, binds, name])
      | missing => exact .inr (by simp [referenceTarget, asks, found, binds, name])

theorem referenceTarget_eq_named {reference : Reference} {signature : Signature}
    (asks : reference.signature? = some signature)
    (unbound : ∀ owner, program.position? reference.owner = some owner →
      ∀ method, program.lookup owner signature ≠ .found method) :
    program.referenceTarget reference = .named (signature.key reference.owner) := by
  rcases referenceTarget_cases asks with ⟨owner, method, found, binds, _⟩ | target
  · exact absurd binds (unbound owner found method)
  · exact target

theorem referenceTarget_eq_classTarget {reference : Reference}
    (isClass : reference.signature? = none) :
    program.referenceTarget reference = program.classTarget reference.owner := by
  simp [referenceTarget, isClass]

theorem firstUnresolved?_eq_none :
    program.firstUnresolved? = none ↔
      ∀ declaration ∈ program.classes, ∀ member ∈ declaration.members,
        ∀ reference ∈ member.references, ¬program.isUnresolved reference := by
  simp only [firstUnresolved?, unresolvedIn?, List.findSome?_eq_none_iff, Option.map_eq_none_iff,
    List.find?_eq_none]

theorem firstUnresolved?_eq_none_iff :
    program.firstUnresolved? = none ↔
      ∀ declaration ∈ program.classes, ∀ member ∈ declaration.members,
        ∀ reference ∈ member.references, ∀ signature owner,
          reference.signature? = some signature →
          program.position? reference.owner = some owner →
          program.lookup owner signature ≠ .missing := by
  have resolves (reference : Reference) : ¬program.isUnresolved reference ↔
      ∀ signature owner, reference.signature? = some signature →
        program.position? reference.owner = some owner →
        program.lookup owner signature ≠ .missing := by
    unfold isUnresolved
    cases asks : reference.signature? with
    | none => simp
    | some signature =>
        cases found : program.position? reference.owner with
        | none => simp
        | some owner => simp
  simp only [firstUnresolved?_eq_none, resolves]

/-- The edges that the declarations of a program call for, before it is known which
names need a boundary symbol. -/
inductive Pending (program : Program) : PendingEdge → Prop
  | superclass {position : Nat} {declaration : ClassDecl} {name : String} :
      program.classes[position]? = some declaration → declaration.superclass = some name →
        Pending program ⟨program.classNode position, program.classTarget name, .extendsClass⟩
  | interface {position : Nat} {declaration : ClassDecl} {name : String} :
      program.classes[position]? = some declaration → name ∈ declaration.interfaces →
        Pending program
          ⟨program.classNode position, program.classTarget name, .implementsInterface⟩
  | classTag {position tagged : Nat} {declaration : ClassDecl} {tag : String} :
      program.classes[position]? = some declaration → tag ∈ declaration.annotations →
      program.position? tag = some tagged →
        Pending program
          ⟨program.classNode position, .node (program.classNode tagged), .annotatedBy⟩
  | owner {position index : Nat} {declaration : ClassDecl} {member : Member} :
      program.classes[position]? = some declaration →
      declaration.members[index]? = some member →
        Pending program ⟨program.memberNode ⟨position, index⟩,
          .node (program.classNode position), .references⟩
  | memberTag {position index tagged : Nat} {declaration : ClassDecl} {member : Member}
      {tag : String} :
      program.classes[position]? = some declaration →
      declaration.members[index]? = some member → tag ∈ member.annotations →
      program.position? tag = some tagged →
        Pending program ⟨program.memberNode ⟨position, index⟩,
          .node (program.classNode tagged), .annotatedBy⟩
  | reference {position index : Nat} {declaration : ClassDecl} {member : Member}
      {reference : Reference} :
      program.classes[position]? = some declaration →
      declaration.members[index]? = some member → reference ∈ member.references →
        Pending program ⟨program.memberNode ⟨position, index⟩,
          program.referenceTarget reference, .references⟩
  | referenceOwner {position index owner : Nat} {declaration : ClassDecl} {member : Member}
      {reference : Reference} :
      program.classes[position]? = some declaration →
      declaration.members[index]? = some member → reference ∈ member.references →
      reference.name.isSome → program.position? reference.owner = some owner →
        Pending program ⟨program.memberNode ⟨position, index⟩,
          .node (program.classNode owner), .references⟩

theorem mem_annotationEdges_iff {source : Nat} {tags : List String} {edge : PendingEdge} :
    edge ∈ program.annotationEdges source tags ↔
      ∃ tag ∈ tags, ∃ tagged, program.position? tag = some tagged ∧
        edge = ⟨source, .node (program.classNode tagged), .annotatedBy⟩ := by
  simp only [annotationEdges, List.mem_map, mem_defined_iff]
  constructor
  · rintro ⟨tagged, ⟨tag, isTag, found⟩, rfl⟩
    exact ⟨tag, isTag, tagged, found, rfl⟩
  · rintro ⟨tag, isTag, tagged, found, rfl⟩
    exact ⟨tagged, ⟨tag, isTag, found⟩, rfl⟩

theorem mem_referenceEdges_iff {source : Nat} {reference : Reference} {edge : PendingEdge} :
    edge ∈ program.referenceEdges source reference ↔
      edge = ⟨source, program.referenceTarget reference, .references⟩ ∨
      reference.name.isSome ∧ ∃ owner, program.position? reference.owner = some owner ∧
        edge = ⟨source, .node (program.classNode owner), .references⟩ := by
  rw [referenceEdges, List.mem_cons, List.mem_map]
  by_cases isMember : reference.name.isSome
  · simp [isMember, mem_defined_iff, eq_comm]
  · simp [isMember]

theorem mem_memberEdges_iff {edge : PendingEdge} :
    edge ∈ program.memberEdges position member index ↔
      edge = ⟨program.memberNode ⟨position, index⟩, .node (program.classNode position),
        .references⟩ ∨
      edge ∈ program.annotationEdges (program.memberNode ⟨position, index⟩) member.annotations ∨
      ∃ reference ∈ member.references,
        edge ∈ program.referenceEdges (program.memberNode ⟨position, index⟩) reference := by
  simp only [memberEdges, List.cons_append, List.mem_cons, List.mem_append, List.mem_flatMap]

theorem pending_of_mem_memberEdges (declared : program.classes[position]? = some declaration)
    (has : declaration.members[index]? = some member) {edge : PendingEdge}
    (leaves : edge ∈ program.memberEdges position member index) : program.Pending edge := by
  rcases mem_memberEdges_iff.mp leaves with rfl | ofTag | ⟨reference, refers, ofReference⟩
  · exact .owner declared has
  · rcases mem_annotationEdges_iff.mp ofTag with ⟨tag, isTag, tagged, found, rfl⟩
    exact .memberTag declared has isTag found
  · rcases mem_referenceEdges_iff.mp ofReference with rfl | ⟨isMember, owner, found, rfl⟩
    · exact .reference declared has refers
    · exact .referenceOwner declared has refers isMember found

theorem mem_classEdges_iff {edge : PendingEdge} :
    edge ∈ program.classEdges declaration position ↔
      (∃ name, declaration.superclass = some name ∧
        edge = ⟨program.classNode position, program.classTarget name, .extendsClass⟩) ∨
      (∃ name ∈ declaration.interfaces,
        edge = ⟨program.classNode position, program.classTarget name, .implementsInterface⟩) ∨
      edge ∈ program.annotationEdges (program.classNode position) declaration.annotations ∨
      ∃ index member, declaration.members[index]? = some member ∧
        edge ∈ program.memberEdges position member index := by
  simp only [classEdges, List.mem_append, List.mem_map, List.mem_flatMap, Option.mem_toList,
    Prod.exists, List.mk_mem_zipIdx_iff_getElem?, eq_comm (b := edge), or_assoc]
  rw [exists_comm]

theorem mem_pendingEdges_of_class (declared : program.classes[position]? = some declaration)
    {edge : PendingEdge} (leaves : edge ∈ program.classEdges declaration position) :
    edge ∈ program.pendingEdges :=
  List.mem_flatMap.mpr ⟨(declaration, position),
    List.mk_mem_zipIdx_iff_getElem?.mpr declared, leaves⟩

theorem mem_pendingEdges_of_member (declared : program.classes[position]? = some declaration)
    (has : declaration.members[index]? = some member)
    {edge : PendingEdge} (leaves : edge ∈ program.memberEdges position member index) :
    edge ∈ program.pendingEdges :=
  mem_pendingEdges_of_class declared
    (mem_classEdges_iff.mpr (.inr (.inr (.inr ⟨index, member, has, leaves⟩))))

theorem Pending.kind_ne_overrides {edge : PendingEdge} (pending : program.Pending edge) :
    edge.kind ≠ .overrides := by
  cases pending <;> exact EdgeKind.noConfusion

theorem mem_pendingEdges_iff {edge : PendingEdge} :
    edge ∈ program.pendingEdges ↔ program.Pending edge := by
  constructor
  · intro listed
    rcases List.mem_flatMap.mp listed with ⟨⟨declaration, position⟩, entry, leaves⟩
    have declared := List.mk_mem_zipIdx_iff_getElem?.mp entry
    rcases mem_classEdges_iff.mp leaves with
      ⟨name, superclass, rfl⟩ | ⟨name, interface, rfl⟩ | ofTag | ⟨index, member, has, ofMember⟩
    · exact .superclass declared superclass
    · exact .interface declared interface
    · rcases mem_annotationEdges_iff.mp ofTag with ⟨tag, isTag, tagged, found, rfl⟩
      exact .classTag declared isTag found
    · exact pending_of_mem_memberEdges declared has ofMember
  · intro pending
    cases pending with
    | superclass declared superclass =>
        exact mem_pendingEdges_of_class declared
          (mem_classEdges_iff.mpr (.inl ⟨_, superclass, rfl⟩))
    | interface declared interface =>
        exact mem_pendingEdges_of_class declared
          (mem_classEdges_iff.mpr (.inr (.inl ⟨_, interface, rfl⟩)))
    | classTag declared isTag found =>
        apply mem_pendingEdges_of_class declared
        refine mem_classEdges_iff.mpr (.inr (.inr (.inl ?_)))
        exact mem_annotationEdges_iff.mpr ⟨_, isTag, _, found, rfl⟩
    | owner declared has =>
        exact mem_pendingEdges_of_member declared has (mem_memberEdges_iff.mpr (.inl rfl))
    | memberTag declared has isTag found =>
        apply mem_pendingEdges_of_member declared has
        refine mem_memberEdges_iff.mpr (.inr (.inl ?_))
        exact mem_annotationEdges_iff.mpr ⟨_, isTag, _, found, rfl⟩
    | reference declared has refers =>
        apply mem_pendingEdges_of_member declared has
        refine mem_memberEdges_iff.mpr (.inr (.inr ⟨_, refers, ?_⟩))
        exact mem_referenceEdges_iff.mpr (.inl rfl)
    | referenceOwner declared has refers isMember found =>
        apply mem_pendingEdges_of_member declared has
        refine mem_memberEdges_iff.mpr (.inr (.inr ⟨_, refers, ?_⟩))
        exact mem_referenceEdges_iff.mpr (.inr ⟨isMember, _, found, rfl⟩)

theorem parent_edge (declared : program.classes[position]? = some declaration) {name : String}
    (parent : declaration.superclass = some name ∨ name ∈ declaration.interfaces) :
    ∃ kind, kind.isTraversed ∧
      ⟨program.classNode position, program.classTarget name, kind⟩ ∈ program.pendingEdges := by
  rcases parent with superclass | interface
  · exact ⟨.extendsClass, rfl, mem_pendingEdges_iff.mpr (.superclass declared superclass)⟩
  · exact ⟨.implementsInterface, rfl, mem_pendingEdges_iff.mpr (.interface declared interface)⟩

theorem owner_edge (declared : program.classes[position]? = some declaration)
    (has : declaration.members[index]? = some member) :
    ⟨program.memberNode ⟨position, index⟩, .node (program.classNode position), .references⟩ ∈
      program.pendingEdges :=
  mem_pendingEdges_iff.mpr (.owner declared has)

theorem reference_edge (declared : program.classes[position]? = some declaration)
    (has : declaration.members[index]? = some member) {reference : Reference}
    (refers : reference ∈ member.references) :
    ⟨program.memberNode ⟨position, index⟩, program.referenceTarget reference, .references⟩ ∈
      program.pendingEdges :=
  mem_pendingEdges_iff.mpr (.reference declared has refers)

theorem referenceOwner_edge (declared : program.classes[position]? = some declaration)
    (has : declaration.members[index]? = some member) {reference : Reference}
    (refers : reference ∈ member.references) (isMember : reference.name.isSome) {owner : Nat}
    (found : program.position? reference.owner = some owner) :
    ⟨program.memberNode ⟨position, index⟩, .node (program.classNode owner), .references⟩ ∈
      program.pendingEdges :=
  mem_pendingEdges_iff.mpr (.referenceOwner declared has refers isMember found)

theorem mem_boundaryNames_iff (name : String) :
    name ∈ program.boundaryNames ↔
      name ∉ program.symbolNames ∧ ∃ edge ∈ program.pendingEdges, edge.target = .named name :=
  mem_boundaryNamesOf_iff

end Program

namespace ProgramGraph

variable {graph : ProgramGraph} {program : Program}

theorem classTarget_ofProgram (program : Program) (name : String) :
    (ofProgram program).classTarget name = program.classTarget name :=
  classTarget_laidOut program name

theorem referenceTarget_eq_ok (resolved : program.firstUnresolved? = none)
    {declaration : ClassDecl} (isClass : declaration ∈ program.classes) {member : Member}
    (isMember : member ∈ declaration.members) {reference : Reference}
    (refers : reference ∈ member.references) (source : String) :
    (ofProgram program).referenceTarget source reference =
      .ok (program.referenceTarget reference) := by
  have resolves := Program.firstUnresolved?_eq_none.mp resolved declaration isClass member
    isMember reference refers
  have target : (ofProgram program).referenceTarget source reference = _ :=
    referenceTarget_laidOut program source reference
  rw [target, Program.referenceFault?, Option.guard, if_neg resolves]
  rfl

theorem mem_outgoing_iff (node target : Nat) (kind : EdgeKind) :
    (target, kind) ∈ graph.view.outgoing node ↔ ⟨node, target, kind⟩ ∈ graph.edges := by
  have listed : graph.view.outgoing node = graph.outgoing node := rfl
  rw [listed, outgoing]
  simp only [List.mem_reverse, List.mem_map, List.mem_filter, decide_eq_true_eq, Prod.mk.injEq]
  constructor
  · intro leaves
    rcases leaves with ⟨edge, ⟨present, rfl⟩, rfl, rfl⟩
    exact present
  · intro present
    exact ⟨_, ⟨present, rfl⟩, rfl, rfl⟩

theorem edge_of_pending {edge : PendingEdge} (pending : edge ∈ program.pendingEdges) :
    ⟨edge.source, (ofProgram program).nodeAt edge.target, edge.kind⟩ ∈
      (ofProgram program).edges := by
  rw [ofProgram_edges]
  exact List.mem_append_left _ (List.mem_eraseDups.mpr (List.mem_map.mpr ⟨edge, pending, rfl⟩))

theorem followed_of_pending {edge : PendingEdge} (pending : edge ∈ program.pendingEdges)
    (traversed : edge.kind.isTraversed) :
    (ofProgram program).nodeAt edge.target ∈ (ofProgram program).view.followed edge.source := by
  refine List.mem_map.mpr ⟨(_, edge.kind), List.mem_filter.mpr ⟨?_, traversed⟩, rfl⟩
  exact (mem_outgoing_iff _ _ _).mpr (edge_of_pending pending)

theorem mem_overrides_iff (overrider overridden : Nat) :
    overridden ∈ (ofProgram program).view.overrides overrider ↔
      (overrider, overridden) ∈ (ofProgram program).overridePairs :=
  OverrideIndex.mem_overrides_ofPairs

theorem mem_overriddenBy_iff (overrider overridden : Nat) :
    overrider ∈ (ofProgram program).view.overriddenBy overridden ↔
      (overrider, overridden) ∈ (ofProgram program).overridePairs :=
  OverrideIndex.mem_overriddenBy_ofPairs

end ProgramGraph

end ClassShrink
