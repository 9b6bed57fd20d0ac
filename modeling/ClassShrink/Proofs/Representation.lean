import ClassShrink.Proofs.DeclaredEdges
import ClassShrink.Proofs.Roots
import ClassShrink.Proofs.Sorting

/-! # What the tables of a graph agree on

Construction enters each symbol into the list of nodes, the name index and one of
the tables of classes, members and boundary symbols. In a graph that is built all
of them describe the same nodes. -/

namespace ClassShrink

open ProgramGraph (ofProgram)

/-! ## Lists -/

section Lists

variable {α : Type}

theorem head?_eq_of_mem_iff {elements : List α} {only : Option α}
    (listed : ∀ element, element ∈ elements ↔ only = some element) : elements.head? = only := by
  cases elements with
  | nil =>
      cases only with
      | none => rfl
      | some element => exact absurd ((listed element).mpr rfl) List.not_mem_nil
  | cons element rest => exact ((listed element).mp List.mem_cons_self).symm

theorem eraseDups_filter_pairwise [DecidableEq α] (elements : List α) (keeps : α → Bool) :
    (elements.filter keeps).eraseDups.Pairwise fun earlier later =>
      elements.idxOf earlier < elements.idxOf later := by
  induction elements generalizing keeps with
  | nil => simp
  | cons first rest induction =>
      -- Behind a first element that is kept, only others are.
      have shifted (accepts : α → Bool) (others : ∀ element, accepts element → element ≠ first) :
          (rest.filter accepts).eraseDups.Pairwise fun earlier later =>
            (first :: rest).idxOf earlier < (first :: rest).idxOf later := by
        refine (induction accepts).imp_of_mem ?_
        intro earlier later earlierListed laterListed less
        have earlierOther := others earlier
          (List.mem_filter.mp (List.mem_eraseDups.mp earlierListed)).2
        have laterOther := others later (List.mem_filter.mp (List.mem_eraseDups.mp laterListed)).2
        rw [List.idxOf_cons_ne _ earlierOther.symm, List.idxOf_cons_ne _ laterOther.symm]
        exact Nat.succ_lt_succ less
      by_cases kept : keeps first
      · rw [List.filter_cons_of_pos kept, List.eraseDups_cons, List.filter_filter]
        have others (element : α) (accepted : (!element == first && keeps element) = true) :
            element ≠ first := by
          simp only [Bool.and_eq_true, Bool.not_eq_true', beq_eq_false_iff_ne] at accepted
          exact accepted.1
        refine List.pairwise_cons.mpr ⟨?_, shifted _ others⟩
        intro later listed
        have other := others later (List.mem_filter.mp (List.mem_eraseDups.mp listed)).2
        rw [List.idxOf_cons_self, List.idxOf_cons_ne _ other.symm]
        exact Nat.succ_pos _
      · rw [List.filter_cons_of_neg kept]
        apply shifted
        intro element accepted equal
        exact kept (equal ▸ accepted)

theorem pairwise_lt_mergeSort {numbers : List Nat} (distinct : numbers.Nodup) :
    (numbers.mergeSort natLe).Pairwise (· < ·) :=
  mergeSort_pairwise_lt natLe_iff Function.injective_id distinct

end Lists

namespace Program

variable {program : Program}

/-! ## Boundary symbols in the order of use -/

/-- A reference uses the name of the declaration that it binds to. One that binds to
none, or that is to a class, uses its own. -/
def referencedName (program : Program) (reference : Reference) : String :=
  let bound? := do
    let signature ← reference.signature?
    let owner ← program.position? reference.owner
    let .found place := program.lookup owner signature | none
    let declaration ← program.classes[place.owner]?
    let member ← declaration.members[place.index]?
    return member.qualifiedName declaration.name
  bound?.getD reference.qualifiedName

def referencedNames (program : Program) (member : Member) : List String :=
  member.references.map program.referencedName

/-- The names of all that declarations use, in order: the parents of each class, and
then what its members refer to. -/
def usedNames (program : Program) : List String :=
  program.classes.flatMap fun declaration =>
    declaration.superclass.toList ++ declaration.interfaces ++
      declaration.members.flatMap program.referencedNames

theorem targetName_referenceTarget (distinct : program.symbolNames.Nodup)
    (reference : Reference) :
    program.targetName (program.referenceTarget reference) = program.referencedName reference := by
  rw [referencedName]
  cases asks : reference.signature? with
  | none =>
      rw [referenceTarget_eq_classTarget asks, targetName_classTarget distinct]
      simp [Reference.qualifiedName, asks]
  | some signature =>
      cases found : program.position? reference.owner with
      | none => simp [referenceTarget, asks, found, targetName]
      | some owner =>
          cases binds : program.lookup owner signature with
          | missing => simp [referenceTarget, asks, found, binds, targetName]
          | maybeInherited => simp [referenceTarget, asks, found, binds, targetName]
          | found place =>
              rcases exists_member_of_lookup binds with ⟨declaration, member, declared, has⟩
              have placed := symbolNames_memberNode declared has
              simp [referenceTarget, asks, found, binds, targetName, placed, declared, has]

def boundaryName? (program : Program) : Target → Option String
  | .named name => if name ∈ program.symbolNames then none else some name
  | .node _ => none

def boundaryUses (program : Program) (edges : List PendingEdge) : List String :=
  edges.filterMap fun edge => program.boundaryName? edge.target

theorem boundaryNames_eq (program : Program) :
    program.boundaryNames = (program.boundaryUses program.pendingEdges).eraseDups := by
  rw [boundaryNames, boundaryNamesOf, List.filter_filterMap, boundaryUses]
  congr 2
  funext edge
  cases edge.target with
  | node node => rfl
  | named name =>
      by_cases defined : name ∈ program.symbolNames
      · simp [boundaryName?, Target.name?, defined]
      · simp [boundaryName?, Target.name?, defined]

theorem boundaryName?_eq_guard {target : Target}
    (inside : ∀ node, target = .node node → node < program.symbolNames.length) :
    program.boundaryName? target =
      Option.guard (fun name => name ∉ program.symbolNames) (program.targetName target) := by
  cases target with
  | node node =>
      have placed := List.getElem?_eq_getElem (inside node rfl)
      simp [boundaryName?, targetName, placed, Option.guard]
  | named name =>
      by_cases defined : name ∈ program.symbolNames
      · simp [boundaryName?, targetName, defined, Option.guard]
      · simp [boundaryName?, targetName, defined]

theorem boundaryUses_append (edges others : List PendingEdge) :
    program.boundaryUses (edges ++ others) =
      program.boundaryUses edges ++ program.boundaryUses others :=
  List.filterMap_append

theorem boundaryUses_flatMap {α : Type} (elements : List α) (edges : α → List PendingEdge) :
    program.boundaryUses (elements.flatMap edges) =
      elements.flatMap fun element => program.boundaryUses (edges element) :=
  List.filterMap_flatMap

theorem boundaryUses_cons_node (source node : Nat) (kind : EdgeKind) (edges : List PendingEdge) :
    program.boundaryUses (⟨source, .node node, kind⟩ :: edges) = program.boundaryUses edges :=
  rfl

theorem boundaryUses_annotationEdges (source : Nat) (tags : List String) :
    program.boundaryUses (program.annotationEdges source tags) = [] := by
  simp [boundaryUses, annotationEdges, boundaryName?]

section Uses

variable (distinct : program.symbolNames.Nodup)

include distinct

theorem boundaryUses_parents (names : List String) (source : Nat) (kind : EdgeKind) :
    program.boundaryUses (names.map fun name => ⟨source, program.classTarget name, kind⟩) =
      names.filter fun name => name ∉ program.symbolNames := by
  have parent (name : String) : program.boundaryName? (program.classTarget name) =
      Option.guard (fun name => name ∉ program.symbolNames) name := by
    rw [boundaryName?_eq_guard fun _ => lt_of_classTarget distinct,
      targetName_classTarget distinct]
  rw [boundaryUses, List.filterMap_map]
  simp only [Function.comp_def, parent]
  rw [← List.filterMap_eq_filter]

theorem boundaryUses_referenceEdges (source : Nat) (reference : Reference) :
    program.boundaryUses (program.referenceEdges source reference) =
      [program.referencedName reference].filter fun name => name ∉ program.symbolNames := by
  have denoted : program.boundaryName? (program.referenceTarget reference) =
      Option.guard (fun name => name ∉ program.symbolNames)
        (program.referencedName reference) := by
    rw [boundaryName?_eq_guard fun _ => lt_of_referenceTarget distinct,
      targetName_referenceTarget distinct]
  have ofOwners (owners : List Nat) :
      (owners.map fun position =>
          (⟨source, .node (program.classNode position), .references⟩ : PendingEdge)).filterMap
        (fun edge => program.boundaryName? edge.target) = [] := by
    simp [boundaryName?]
  rw [← List.filterMap_eq_filter, boundaryUses, referenceEdges, List.filterMap_cons, ofOwners,
    denoted]
  rfl

theorem boundaryUses_memberEdges (position : Nat) (member : Member) (index : Nat) :
    program.boundaryUses (program.memberEdges position member index) =
      (program.referencedNames member).filter fun name => name ∉ program.symbolNames := by
  rw [memberEdges, List.cons_append, boundaryUses_cons_node, boundaryUses_append,
    boundaryUses_annotationEdges, List.nil_append, boundaryUses_flatMap, referencedNames,
    List.map_eq_flatMap, List.filter_flatMap]
  simp only [boundaryUses_referenceEdges distinct]

theorem boundaryUses_classEdges (declaration : ClassDecl) (position : Nat) :
    program.boundaryUses (program.classEdges declaration position) =
      (declaration.superclass.toList ++ declaration.interfaces ++
        declaration.members.flatMap program.referencedNames).filter
          fun name => name ∉ program.symbolNames := by
  have members : program.boundaryUses (declaration.members.zipIdx.flatMap fun entry =>
        program.memberEdges position entry.1 entry.2) =
      (declaration.members.flatMap program.referencedNames).filter
        fun name => name ∉ program.symbolNames := by
    rw [boundaryUses_flatMap, List.filter_flatMap]
    simp only [boundaryUses_memberEdges distinct]
    conv_rhs => rw [← List.zipIdx_map_fst 0 declaration.members, List.flatMap_map]
  rw [classEdges, boundaryUses_append, boundaryUses_append, boundaryUses_append,
    boundaryUses_parents distinct, boundaryUses_parents distinct, boundaryUses_annotationEdges,
    List.append_nil, List.filter_append, List.filter_append]
  exact congrArg _ members

/-- A boundary symbol is made for each name that is used and not defined, when it is
used first. -/
theorem boundaryNames_eq_usedNames :
    program.boundaryNames =
      (program.usedNames.filter fun name => name ∉ program.symbolNames).eraseDups := by
  rw [boundaryNames_eq, pendingEdges, boundaryUses_flatMap, usedNames, List.filter_flatMap]
  simp only [boundaryUses_classEdges distinct]
  conv_rhs => rw [← List.zipIdx_map_fst 0 program.classes, List.flatMap_map]

end Uses

end Program

namespace ProgramGraph

variable {graph : ProgramGraph} {program : Program} {position index : Nat}
  {declaration : ClassDecl} {member : Member} {node : Nat} {name : String}

/-! ## Nodes and names -/

theorem nodeNames_eq_some_iff :
    program.nodeNames[node]? = some name ↔
      (ofProgram program).view.contains node ∧ (ofProgram program).view.name node = name := by
  rw [view_contains, view_name]
  constructor
  · intro placed
    exact ⟨(List.getElem?_eq_some_iff.mp placed).1, by rw [placed, Option.getD_some]⟩
  · rintro ⟨inside, named⟩
    rw [List.getElem?_eq_getElem inside] at named ⊢
    exact congrArg some named

/-! ## Nodes and places -/

theorem place_cases (program : Program) (node : Nat) :
    (∃ position declaration, program.classes[position]? = some declaration ∧
      node = program.classNode position) ∨
    (∃ position index declaration member, program.classes[position]? = some declaration ∧
      declaration.members[index]? = some member ∧
        node = program.memberNode ⟨position, index⟩) ∨
    program.symbolNames.length ≤ node := by
  by_cases inside : node < program.symbolNames.length
  · rcases Program.exists_symbol inside with ofClass | ofMember
    · exact .inl ofClass
    · exact .inr (.inl ofMember)
  · exact .inr (.inr (Nat.not_lt.mp inside))

theorem view_size : (ofProgram program).view.size =
    program.symbolNames.length + program.boundaryNames.length :=
  (size_ofProgram program).trans (nodeNames_length program)

theorem nodes_eq_append :
    (ofProgram program).view.nodes =
      List.range program.symbolNames.length ++ (ofProgram program).view.boundaries := by
  rw [SymbolGraph.nodes, view_size, List.range_add, boundaries_eq]

def numberBlock (graph : ProgramGraph) (entry : ClassDecl × Nat) : List Nat :=
  graph.classNode entry.2 :: (List.range entry.1.members.length).map (graph.memberNode entry.2)

theorem numberBlock_length (entry : ClassDecl × Nat) :
    (graph.numberBlock entry).length = entry.1.members.length + 1 := by
  simp [numberBlock]

/-- The nodes of classes and members follow each other as the declarations do. -/
theorem range_eq_numberBlocks :
    List.range program.symbolNames.length =
      program.classes.zipIdx.flatMap (ofProgram program).numberBlock := by
  apply List.ext_getElem?
  intro node
  rcases place_cases program node with
    ⟨position, declaration, declared, rfl⟩ |
    ⟨position, index, declaration, member, declared, has, rfl⟩ | outside
  · have first : ((ofProgram program).numberBlock (declaration, position))[0]? =
        some (program.classNode position) := congrArg some (classNode_eq declared)
    have placed := blocks_getElem? numberBlock_length declared first
    exact (List.getElem?_range (Program.classNode_lt declared)).trans placed.symm
  · have within := (List.getElem?_eq_some_iff.mp has).1
    have inBlock : ((ofProgram program).numberBlock (declaration, position))[index + 1]? =
        some (program.memberNode ⟨position, index⟩) := by
      simp [numberBlock, within, memberNode_eq declared has]
    have placed := blocks_getElem? numberBlock_length declared inBlock
    rw [← Program.memberNode_eq] at placed
    exact (List.getElem?_range (Program.memberNode_lt declared has)).trans placed.symm
  · rw [List.getElem?_eq_none (by rwa [List.length_range]),
      List.getElem?_eq_none (by rwa [blocks_length numberBlock_length])]

theorem size_eq :
    (ofProgram program).view.size = program.classes.length + program.members.length +
      (ofProgram program).view.boundaries.length := by
  rw [view_size, Program.symbolNames_length_eq, boundaries_eq, List.length_map, List.length_range]

theorem node_outside (outside : program.symbolNames.length ≤ node) :
    ∃ name, (ofProgram program).node node = .boundary name := by
  obtain ⟨offset, rfl⟩ := Nat.exists_eq_add_of_le outside
  cases used : program.boundaryNames[offset]? with
  | some name => exact ⟨name, node_boundary used⟩
  | none =>
      have beyond : (ofProgram program).nodes.length ≤ program.symbolNames.length + offset := by
        have size : (ofProgram program).nodes.length = _ := view_size
        have ended := List.getElem?_eq_none_iff.mp used
        omega
      exact ⟨"", by rw [ProgramGraph.node, List.getElem?_eq_none beyond, Option.getD_none]⟩

section Class

variable (declared : program.classes[position]? = some declaration)

include declared

theorem owner?_classNode :
    (ofProgram program).view.owner? (program.classNode position) = none := by
  simp [view, node_classNode declared]

variable (has : declaration.members[index]? = some member)

include has

theorem owner?_memberNode :
    (ofProgram program).view.owner? (program.memberNode ⟨position, index⟩) =
      some (program.classNode position) := by
  simp [view, node_memberNode declared has, classNode_eq declared]

theorem members_memberNode :
    (ofProgram program).view.members (program.memberNode ⟨position, index⟩) = [] := by
  simp [view, node_memberNode declared has]

end Class

theorem owner?_outside (outside : program.symbolNames.length ≤ node) :
    (ofProgram program).view.owner? node = none := by
  rcases node_outside outside with ⟨name, isBoundary⟩
  simp [view, isBoundary, SymbolNode.boundary]

theorem members_outside (outside : program.symbolNames.length ≤ node) :
    (ofProgram program).view.members node = [] := by
  rcases node_outside outside with ⟨name, isBoundary⟩
  simp [view, isBoundary, SymbolNode.boundary]

theorem mem_members_iff_owner (owner node : Nat) :
    node ∈ (ofProgram program).view.members owner ↔
      (ofProgram program).view.owner? node = some owner := by
  constructor
  · intro isMember
    rcases place_cases program owner with
      ⟨position, declaration, declared, rfl⟩ |
      ⟨position, index, declaration, member, declared, has, rfl⟩ | outside
    · rcases (mem_view_members_iff declared node).mp isMember with ⟨index, member, has, rfl⟩
      exact owner?_memberNode declared has
    · simp [members_memberNode declared has] at isMember
    · simp [members_outside outside] at isMember
  · intro isOwner
    rcases place_cases program node with
      ⟨position, declaration, declared, rfl⟩ |
      ⟨position, index, declaration, member, declared, has, rfl⟩ | outside
    · simp [owner?_classNode declared] at isOwner
    · rw [owner?_memberNode declared has, Option.some.injEq] at isOwner
      subst isOwner
      exact (mem_view_members_iff declared _).mpr ⟨index, member, has, rfl⟩
    · simp [owner?_outside outside] at isOwner

/-! ## Parents -/

theorem outgoing_nodup (distinct : graph.edges.Nodup) (node : Nat) :
    (graph.view.outgoing node).Nodup := by
  rw [show graph.view.outgoing node = graph.outgoing node from rfl, outgoing, List.nodup_reverse]
  refine List.Nodup.map_on ?_ (distinct.filter _)
  intro edge leaves other otherLeaves equal
  simp only [List.mem_filter, decide_eq_true_eq] at leaves otherLeaves
  rcases edge with ⟨source, target, kind⟩
  rcases other with ⟨otherSource, otherTarget, otherKind⟩
  cases equal
  rw [Edge.mk.injEq]
  exact ⟨leaves.2.trans otherLeaves.2.symm, rfl, rfl⟩

theorem mem_targets_iff (node target : Nat) (kind : EdgeKind) :
    target ∈ graph.targets node kind ↔ ⟨node, target, kind⟩ ∈ graph.edges := by
  rw [← mem_outgoing_iff]
  simp [targets, view]

theorem targets_nodup (distinct : graph.edges.Nodup) (node : Nat) (kind : EdgeKind) :
    (graph.targets node kind).Nodup := by
  refine List.Nodup.map_on ?_ ((outgoing_nodup distinct node).filter _)
  intro edge ofKind other otherOfKind equal
  simp only [List.mem_filter, decide_eq_true_eq] at ofKind otherOfKind
  exact Prod.ext equal (ofKind.2.trans otherOfKind.2.symm)

def parentsBy (declaration : ClassDecl) : EdgeKind → List String
  | .extendsClass => declaration.superclass.toList
  | .implementsInterface => declaration.interfaces
  | _ => []

section Parents

variable (distinct : program.symbolNames.Nodup) {kind : EdgeKind}
  (isParent : kind = .extendsClass ∨ kind = .implementsInterface)

include distinct

theorem denotesClass_iff_find? :
    program.DenotesClass (ofProgram program) name node ↔
      (ofProgram program).find? name = some node := by
  rw [Program.denotesClass_iff distinct, find?_eq_some_iff distinct]

theorem exists_parent_node (declared : program.classes[position]? = some declaration)
    (parent : declaration.superclass = some name ∨ name ∈ declaration.interfaces) :
    ∃ node, (ofProgram program).find? name = some node := by
  have placed := names_of_links distinct (Program.Links.parent declared parent)
  rw [Program.targetName_classTarget distinct, ← find?_eq_some_iff distinct] at placed
  exact ⟨_, placed⟩

include isParent

theorem mem_parent_edges_iff (source target : Nat) :
    ⟨source, target, kind⟩ ∈ (ofProgram program).edges ↔
      ∃ position declaration, program.classes[position]? = some declaration ∧
        source = program.classNode position ∧
          ∃ name ∈ parentsBy declaration kind, (ofProgram program).find? name = some target := by
  rw [mem_edges_iff distinct]
  constructor
  · intro present
    rcases present with declares | overrides
    · cases declares with
      | superclass declared superclass denotes =>
          exact ⟨_, _, declared, classNode_eq declared, _, Option.mem_toList.mpr superclass,
            (denotesClass_iff_find? distinct).mp denotes⟩
      | interface declared interface denotes =>
          exact ⟨_, _, declared, classNode_eq declared, _, interface,
            (denotesClass_iff_find? distinct).mp denotes⟩
      | classTag => simp at isParent
      | memberTag => simp at isParent
      | owner => simp at isParent
      | reference => simp at isParent
      | referenceOwner => simp at isParent
    · cases ((Program.overrideEdge_iff distinct).mp overrides).2
      simp at isParent
  · intro declares
    rcases declares with ⟨position, declaration, declared, rfl, name, parent, found⟩
    have denotes := (denotesClass_iff_find? distinct).mpr found
    rw [← classNode_eq declared]
    rcases isParent with rfl | rfl
    · exact .inl (.superclass declared (Option.mem_toList.mp parent) denotes)
    · exact .inl (.interface declared parent denotes)

theorem mem_targets_classNode_iff (declared : program.classes[position]? = some declaration)
    (target : Nat) :
    target ∈ (ofProgram program).targets (program.classNode position) kind ↔
      ∃ name ∈ parentsBy declaration kind, (ofProgram program).find? name = some target := by
  rw [mem_targets_iff, mem_parent_edges_iff distinct isParent]
  constructor
  · intro parent
    rcases parent with ⟨other, otherDeclaration, otherDeclared, sameNode, parent⟩
    cases Program.eq_of_classNode_eq declared otherDeclared sameNode
    cases declared.symm.trans otherDeclared
    exact parent
  · intro parent
    exact ⟨position, declaration, declared, rfl, parent⟩

theorem targets_eq_nil (noClass : (ofProgram program).view.kind node ≠ .classDecl) :
    (ofProgram program).targets node kind = [] := by
  apply List.eq_nil_iff_forall_not_mem.mpr
  intro target listed
  rw [mem_targets_iff, mem_parent_edges_iff distinct isParent] at listed
  rcases listed with ⟨position, declaration, declared, rfl, _⟩
  apply noClass
  exact kind_classNode declared

end Parents

/-! ## Agreement -/

/-- What the tables say about a node. -/
structure Describes (graph : ProgramGraph) (node : Nat) (origin : Origin) (kind : SymbolKind)
    (name : String) (owner? : Option Nat) (members : List Nat) : Prop where
  origin : graph.origins[node]? = some origin
  kind : graph.view.kind node = kind
  name : graph.view.name node = name
  owner : graph.view.owner? node = owner?
  members : graph.view.members node = members

/-- The tables of a graph agree with each other and with a program. -/
structure Represents (graph : ProgramGraph) (program : Program) : Prop where
  find?_name : ∀ node, graph.view.contains node → graph.find? (graph.view.name node) = some node
  name_of_find? : ∀ name node, graph.find? name = some node →
    graph.view.contains node ∧ graph.view.name node = name
  /-- Each class is followed by its members, and the boundary symbols come last. -/
  layout : graph.view.nodes =
    (program.classes.zipIdx.flatMap fun entry => graph.classNode entry.2 ::
      (List.range entry.1.members.length).map (graph.memberNode entry.2)) ++ graph.view.boundaries
  size : graph.view.size =
    program.classes.length + program.members.length + graph.view.boundaries.length
  mem_boundaryNames : ∀ name, name ∈ graph.view.boundaries.map graph.view.name ↔
    name ∈ program.usedNames ∧ name ∉ program.symbolNames
  /-- Boundary symbols are in the order of first use. -/
  order : graph.view.boundaries.Pairwise fun earlier later =>
    program.usedNames.idxOf (graph.view.name earlier) <
      program.usedNames.idxOf (graph.view.name later)
  ofClass : ∀ position declaration, program.classes[position]? = some declaration →
    graph.Describes (graph.classNode position) (.declaration position) .classDecl declaration.name
      none ((List.range declaration.members.length).map (graph.memberNode position))
  ofMember : ∀ position index declaration member,
    program.classes[position]? = some declaration → declaration.members[index]? = some member →
      graph.Describes (graph.memberNode position index) (.member position index)
        member.kind.symbolKind (member.qualifiedName declaration.name)
        (some (graph.classNode position)) []
  ofBoundary : ∀ node ∈ graph.view.boundaries,
    graph.Describes node .boundary .boundary (graph.view.name node) none []
  mem_members : ∀ owner node,
    node ∈ graph.view.members owner ↔ graph.view.owner? node = some owner
  boundaries_once : graph.view.boundaries.Nodup
  mem_boundaries : ∀ node, node ∈ graph.view.boundaries ↔
    graph.view.contains node ∧ graph.view.kind node = .boundary
  /-- Every parent that a class names has a node, be it a class or not. -/
  parent : ∀ (position : Nat) (declaration : ClassDecl) (name : String),
    program.classes[position]? = some declaration →
    declaration.superclass = some name ∨ name ∈ declaration.interfaces →
      ∃ node, graph.find? name = some node
  superclass : ∀ position declaration, program.classes[position]? = some declaration →
    graph.view.superclass? (graph.classNode position) = declaration.superclass.bind graph.find?
  mem_interfaces : ∀ position declaration, program.classes[position]? = some declaration →
    ∀ node, node ∈ graph.view.interfaces (graph.classNode position) ↔
      ∃ name ∈ declaration.interfaces, graph.find? name = some node
  interfaces_ascending : ∀ node, (graph.view.interfaces node).Pairwise (· < ·)
  parentless : ∀ node, graph.view.kind node ≠ .classDecl →
    graph.view.superclass? node = none ∧ graph.view.interfaces node = []

theorem boundaries_nodup : (ofProgram program).view.boundaries.Nodup := by
  rw [boundaries_eq]
  refine List.nodup_range.map ?_
  intro left right equal
  exact Nat.add_left_cancel equal

theorem origins_eq_some {symbol : SymbolNode} (inside : node < (ofProgram program).size)
    (isSymbol : (ofProgram program).node node = symbol) :
    (ofProgram program).origins[node]? = some symbol.origin := by
  rw [ProgramGraph.node, List.getElem?_eq_getElem inside, Option.getD_some] at isSymbol
  rw [origins, List.getElem?_map, List.getElem?_eq_getElem inside, isSymbol, Option.map_some]

theorem symbol_inside (isSymbol : node < program.symbolNames.length) :
    node < (ofProgram program).size := by
  have size : (ofProgram program).size = _ := view_size
  omega

theorem describes_class (declared : program.classes[position]? = some declaration) :
    (ofProgram program).Describes ((ofProgram program).classNode position)
      (.declaration position) .classDecl declaration.name none
      ((List.range declaration.members.length).map ((ofProgram program).memberNode position)) := by
  have row : memberRow program (declaration, position) =
      (List.range declaration.members.length).map ((ofProgram program).memberNode position) := by
    refine List.map_congr_left fun index within => ?_
    have has := List.getElem?_eq_getElem (List.mem_range.mp within)
    exact (memberNode_eq declared has).symm
  rw [classNode_eq declared]
  exact
    { origin := origins_eq_some (symbol_inside (Program.classNode_lt declared))
        (node_classNode declared)
      kind := kind_classNode declared
      name := view_name_classNode declared
      owner := owner?_classNode declared
      members := (view_members_classNode declared).trans row }

theorem describes_member (declared : program.classes[position]? = some declaration)
    (has : declaration.members[index]? = some member) :
    (ofProgram program).Describes ((ofProgram program).memberNode position index)
      (.member position index) member.kind.symbolKind (member.qualifiedName declaration.name)
      (some ((ofProgram program).classNode position)) [] := by
  rw [memberNode_eq declared has, classNode_eq declared]
  exact
    { origin := origins_eq_some (symbol_inside (Program.memberNode_lt declared has))
        (node_memberNode declared has)
      kind := kind_memberNode declared has
      name := view_name_memberNode declared has
      owner := owner?_memberNode declared has
      members := members_memberNode declared has }

theorem describes_boundary (isBoundary : node ∈ (ofProgram program).view.boundaries) :
    (ofProgram program).Describes node .boundary .boundary ((ofProgram program).view.name node)
      none [] := by
  have outside := length_le_of_mem_boundaries isBoundary
  rcases node_outside outside with ⟨name, isSymbol⟩
  have inside : node < (ofProgram program).size :=
    decide_eq_true_iff.mp (boundaries_inside node isBoundary)
  exact
    { origin := origins_eq_some inside isSymbol
      kind := (mem_boundaries_iff_kind.mp isBoundary).2
      name := rfl
      owner := owner?_outside outside
      members := members_outside outside }

theorem superclass?_classNode (distinct : program.symbolNames.Nodup)
    (declared : program.classes[position]? = some declaration) :
    (ofProgram program).view.superclass? ((ofProgram program).classNode position) =
      declaration.superclass.bind (ofProgram program).find? := by
  rw [classNode_eq declared]
  apply head?_eq_of_mem_iff
  intro target
  rw [mem_targets_classNode_iff distinct (.inl rfl) declared, Option.bind_eq_some_iff]
  simp only [parentsBy, Option.mem_toList]

theorem mem_interfaces_classNode_iff (distinct : program.symbolNames.Nodup)
    (declared : program.classes[position]? = some declaration) :
    node ∈ (ofProgram program).view.interfaces ((ofProgram program).classNode position) ↔
      ∃ name ∈ declaration.interfaces, (ofProgram program).find? name = some node := by
  rw [classNode_eq declared]
  exact List.mem_mergeSort.trans (mem_targets_classNode_iff distinct (.inr rfl) declared node)

theorem mem_boundary_names_iff (distinct : program.symbolNames.Nodup) :
    name ∈ (ofProgram program).view.boundaries.map (ofProgram program).view.name ↔
      name ∈ program.usedNames ∧ name ∉ program.symbolNames := by
  rw [boundaries_map_name, Program.boundaryNames_eq_usedNames distinct]
  simp

theorem boundaries_in_order (distinct : program.symbolNames.Nodup) :
    (ofProgram program).view.boundaries.Pairwise fun earlier later =>
      program.usedNames.idxOf ((ofProgram program).view.name earlier) <
        program.usedNames.idxOf ((ofProgram program).view.name later) := by
  have names : ((ofProgram program).view.boundaries.map (ofProgram program).view.name).Pairwise
      fun earlier later => program.usedNames.idxOf earlier < program.usedNames.idxOf later := by
    rw [boundaries_map_name, Program.boundaryNames_eq_usedNames distinct]
    exact eraseDups_filter_pairwise _ _
  rwa [List.pairwise_map] at names

theorem parentless_of_kind (distinct : program.symbolNames.Nodup)
    (noClass : (ofProgram program).view.kind node ≠ .classDecl) :
    (ofProgram program).view.superclass? node = none ∧
      (ofProgram program).view.interfaces node = [] := by
  simp only [view]
  rw [targets_eq_nil distinct (.inl rfl) noClass, targets_eq_nil distinct (.inr rfl) noClass]
  exact ⟨rfl, List.mergeSort_nil⟩

end ProgramGraph

/-- The tables of a graph that is built agree: names and nodes determine each other,
the nodes follow the program and then the order in which undefined names are used,
members and owners correspond, and the parents of a class are those it declares. -/
theorem ProgramGraph.build_represents {program : Program} {graph : ProgramGraph} {parallel : Bool}
    (built : ProgramGraph.build program parallel = .ok graph) : graph.Represents program := by
  rcases build_eq_ok_iff.mp built with ⟨distinct, _, rfl⟩
  exact
    { find?_name := fun node inside =>
        (find?_eq_some_iff distinct).mpr (nodeNames_eq_some_iff.mpr ⟨inside, rfl⟩)
      name_of_find? := fun name node found =>
        nodeNames_eq_some_iff.mp ((find?_eq_some_iff distinct).mp found)
      layout := nodes_eq_append.trans (congrArg (· ++ _) range_eq_numberBlocks)
      size := size_eq
      mem_boundaryNames := fun _ => mem_boundary_names_iff distinct
      order := boundaries_in_order distinct
      ofClass := fun _ _ => describes_class
      ofMember := fun _ _ _ _ => describes_member
      ofBoundary := fun _ => describes_boundary
      mem_members := mem_members_iff_owner
      boundaries_once := boundaries_nodup
      mem_boundaries := fun _ => mem_boundaries_iff_kind
      parent := fun _ _ _ => exists_parent_node distinct
      superclass := fun _ _ => superclass?_classNode distinct
      mem_interfaces := fun _ _ declared _ => mem_interfaces_classNode_iff distinct declared
      interfaces_ascending := fun node =>
        pairwise_lt_mergeSort (targets_nodup (edges_nodup distinct) node _)
      parentless := fun _ => parentless_of_kind distinct }

namespace SharedName

/-- A superclass is found by its name alone, so that of `Circle` is a method. The
boundary symbols stand behind the three symbols of the program. -/
theorem tables_of_shared_name :
    ∃ graph, ProgramGraph.build program = .ok graph ∧
      graph.view.superclass? (graph.classNode 1) = some (graph.memberNode 0 0) ∧
      graph.view.boundaries.map graph.view.name = ["Drawable", "Drawable.draw:"] ∧
      graph.find? "Drawable.draw:" = some 4 ∧ graph.view.name 4 = "Drawable.draw:" := by
  have built : ProgramGraph.build program = .ok (ofProgram program) :=
    ProgramGraph.build_eq_ok_iff.mpr ⟨by decide +kernel, by decide +kernel, rfl⟩
  have represents := ProgramGraph.build_represents built
  have circle : program.classes[1]? = some program.classes[1] := rfl
  have found : (ofProgram program).find? "Drawable.draw:" = some 4 := by decide +kernel
  refine ⟨_, built, ?_, by decide +kernel, found, (represents.name_of_find? _ _ found).2⟩
  rw [represents.superclass 1 _ circle]
  decide +kernel

end SharedName

end ClassShrink
