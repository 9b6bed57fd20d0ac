import ClassShrink.Proofs.Graph
import ClassShrink.Proofs.Lookup

/-! # What a symbol needs

The numbers of symbols depend on where they are declared, their names do not.
What marking follows from a symbol is said here with names: what the symbol
mentions, what it overrides or is overridden by, and the static initializer of a
class. -/

namespace ClassShrink

open ProgramGraph (ofProgram)

/-! ## Edges that marking follows -/

namespace Program

variable {program : Program} {position index : Nat} {declaration : ClassDecl} {member : Member}

/-- The edges that marking follows, with what they are made for: the parents of a
class, the class of a member, and for every reference what it denotes and its
named owner. -/
inductive Links (program : Program) : Nat → Target → Prop
  | parent {position : Nat} {declaration : ClassDecl} {name : String} :
      program.classes[position]? = some declaration →
      declaration.superclass = some name ∨ name ∈ declaration.interfaces →
        Links program (program.classNode position) (program.classTarget name)
  | owner {position index : Nat} {declaration : ClassDecl} {member : Member} :
      program.classes[position]? = some declaration →
      declaration.members[index]? = some member →
        Links program (program.memberNode ⟨position, index⟩) (.node (program.classNode position))
  | reference {position index : Nat} {declaration : ClassDecl} {member : Member}
      {reference : Reference} :
      program.classes[position]? = some declaration →
      declaration.members[index]? = some member → reference ∈ member.references →
        Links program (program.memberNode ⟨position, index⟩) (program.referenceTarget reference)
  | referenceOwner {position index owner : Nat} {declaration : ClassDecl} {member : Member}
      {reference : Reference} :
      program.classes[position]? = some declaration →
      declaration.members[index]? = some member → reference ∈ member.references →
      reference.name.isSome → program.position? reference.owner = some owner →
        Links program (program.memberNode ⟨position, index⟩) (.node (program.classNode owner))

theorem Links.exists_pending {source : Nat} {target : Target}
    (links : program.Links source target) :
    ∃ kind, kind.isTraversed ∧ ⟨source, target, kind⟩ ∈ program.pendingEdges := by
  cases links with
  | parent declared parent => exact parent_edge declared parent
  | owner declared has => exact ⟨_, rfl, owner_edge declared has⟩
  | reference declared has refers => exact ⟨_, rfl, reference_edge declared has refers⟩
  | referenceOwner declared has refers isMember found =>
      exact ⟨_, rfl, referenceOwner_edge declared has refers isMember found⟩

def Annotates (program : Program) (edge : PendingEdge) : Prop :=
  edge.kind = .annotatedBy ∧
    ∃ tag position, program.position? tag = some position ∧
      edge.target = .node (program.classNode position)

theorem links_or_annotates {edge : PendingEdge} (pending : edge ∈ program.pendingEdges) :
    program.Links edge.source edge.target ∨ program.Annotates edge := by
  cases mem_pendingEdges_iff.mp pending with
  | superclass declared superclass => exact .inl (.parent declared (.inl superclass))
  | interface declared interface => exact .inl (.parent declared (.inr interface))
  | classTag _ _ found => exact .inr ⟨rfl, _, _, found, rfl⟩
  | owner declared has => exact .inl (.owner declared has)
  | memberTag _ _ _ found => exact .inr ⟨rfl, _, _, found, rfl⟩
  | reference declared has refers => exact .inl (.reference declared has refers)
  | referenceOwner declared has refers isMember found =>
      exact .inl (.referenceOwner declared has refers isMember found)

/-! ## Names of targets -/

def targetName (program : Program) : Target → String
  | .node node => program.symbolNames[node]?.getD ""
  | .named name => name

theorem targetName_classNode (declared : program.classes[position]? = some declaration) :
    program.targetName (.node (program.classNode position)) = declaration.name := by
  simp [targetName, symbolNames_classNode declared]

theorem targetName_classTarget (distinct : program.symbolNames.Nodup) (name : String) :
    program.targetName (program.classTarget name) = name := by
  cases found : program.position? name with
  | none =>
      rw [classTarget_eq_named found]
      rfl
  | some position =>
      rcases (position?_eq_some_iff distinct name).mp found with ⟨declaration, declared, rfl⟩
      rw [classTarget_eq_node found, targetName_classNode declared]

/-- A class or the code of a member mentions a name: a class its parents, a member
its class, and a reference both what it denotes and its owner, if the program
has that. -/
inductive Mentions (program : Program) : String → String → Prop
  | parent {declaration : ClassDecl} {name : String} :
      declaration ∈ program.classes →
      declaration.superclass = some name ∨ name ∈ declaration.interfaces →
        Mentions program declaration.name name
  | owner {declaration : ClassDecl} {member : Member} :
      declaration ∈ program.classes → member ∈ declaration.members →
        Mentions program (member.qualifiedName declaration.name) declaration.name
  | reference {declaration : ClassDecl} {member : Member} {reference : Reference} :
      declaration ∈ program.classes → member ∈ declaration.members →
      reference ∈ member.references →
        Mentions program (member.qualifiedName declaration.name)
          (program.targetName (program.referenceTarget reference))
  | referenceOwner {declaration target : ClassDecl} {member : Member} {reference : Reference} :
      declaration ∈ program.classes → member ∈ declaration.members →
      reference ∈ member.references → reference.name.isSome → target ∈ program.classes →
      target.name = reference.owner →
        Mentions program (member.qualifiedName declaration.name) target.name

theorem Links.mentions (distinct : program.symbolNames.Nodup) {source : Nat} {target : Target}
    (links : program.Links source target) :
    ∃ name, program.symbolNames[source]? = some name ∧
      program.Mentions name (program.targetName target) := by
  cases links with
  | parent declared parent =>
      rw [targetName_classTarget distinct]
      exact ⟨_, symbolNames_classNode declared, .parent (List.mem_of_getElem? declared) parent⟩
  | owner declared has =>
      rw [targetName_classNode declared]
      exact ⟨_, symbolNames_memberNode declared has,
        .owner (List.mem_of_getElem? declared) (List.mem_of_getElem? has)⟩
  | reference declared has refers =>
      exact ⟨_, symbolNames_memberNode declared has,
        .reference (List.mem_of_getElem? declared) (List.mem_of_getElem? has) refers⟩
  | referenceOwner declared has refers isMember found =>
      rcases (position?_eq_some_iff distinct _).mp found with ⟨target, targetDeclared, named⟩
      rw [targetName_classNode targetDeclared]
      exact ⟨_, symbolNames_memberNode declared has,
        .referenceOwner (List.mem_of_getElem? declared) (List.mem_of_getElem? has) refers isMember
          (List.mem_of_getElem? targetDeclared) named⟩

theorem Mentions.links (distinct : program.symbolNames.Nodup) {source name : String}
    (mentions : program.Mentions source name) :
    ∃ node target, program.symbolNames[node]? = some source ∧
      program.targetName target = name ∧ program.Links node target := by
  cases mentions with
  | parent isClass parent =>
      rcases List.mem_iff_getElem?.mp isClass with ⟨position, declared⟩
      exact ⟨_, _, symbolNames_classNode declared, targetName_classTarget distinct _,
        .parent declared parent⟩
  | owner isClass isMember =>
      rcases List.mem_iff_getElem?.mp isClass with ⟨position, declared⟩
      rcases List.mem_iff_getElem?.mp isMember with ⟨index, has⟩
      exact ⟨_, _, symbolNames_memberNode declared has, targetName_classNode declared,
        .owner declared has⟩
  | reference isClass isMember refers =>
      rcases List.mem_iff_getElem?.mp isClass with ⟨position, declared⟩
      rcases List.mem_iff_getElem?.mp isMember with ⟨index, has⟩
      exact ⟨_, _, symbolNames_memberNode declared has, rfl, .reference declared has refers⟩
  | referenceOwner isClass isMember refers ofMember isTarget named =>
      rcases List.mem_iff_getElem?.mp isClass with ⟨position, declared⟩
      rcases List.mem_iff_getElem?.mp isMember with ⟨index, has⟩
      rcases List.mem_iff_getElem?.mp isTarget with ⟨owner, targetDeclared⟩
      have found := (position?_eq_some_iff distinct _).mpr ⟨_, targetDeclared, named⟩
      exact ⟨_, _, symbolNames_memberNode declared has, targetName_classNode targetDeclared,
        .referenceOwner declared has refers ofMember found⟩

theorem lt_of_classTarget (distinct : program.symbolNames.Nodup) {name : String} {node : Nat}
    (isNode : program.classTarget name = .node node) : node < program.symbolNames.length := by
  cases found : program.position? name with
  | none =>
      rw [classTarget_eq_named found] at isNode
      cases isNode
  | some position =>
      rcases (position?_eq_some_iff distinct name).mp found with ⟨_, declared, _⟩
      rw [classTarget_eq_node found] at isNode
      cases isNode
      exact classNode_lt declared

theorem lt_of_referenceTarget (distinct : program.symbolNames.Nodup) {reference : Reference}
    {node : Nat} (isNode : program.referenceTarget reference = .node node) :
    node < program.symbolNames.length := by
  cases asks : reference.signature? with
  | none =>
      rw [referenceTarget_eq_classTarget asks] at isNode
      exact lt_of_classTarget distinct isNode
  | some signature =>
      rcases referenceTarget_cases asks with ⟨owner, method, _, binds, target⟩ | target
      · rw [target] at isNode
        cases isNode
        rcases memberAt?_of_lookup distinct binds with ⟨member, present, _⟩
        rcases memberAt?_eq_some_iff.mp present with ⟨declaration, declared, has⟩
        exact memberNode_lt declared has
      · rw [target] at isNode
        cases isNode

theorem Links.symbol (distinct : program.symbolNames.Nodup) {source node : Nat}
    {target : Target} (links : program.Links source target) (isNode : target = .node node) :
    node < program.symbolNames.length := by
  cases links with
  | parent => exact lt_of_classTarget distinct isNode
  | owner declared =>
      cases isNode
      exact classNode_lt declared
  | reference => exact lt_of_referenceTarget distinct isNode
  | referenceOwner _ _ _ _ found =>
      rcases (position?_eq_some_iff distinct _).mp found with ⟨_, declared, _⟩
      cases isNode
      exact classNode_lt declared

/-- The boundary symbols stand for the names that are mentioned and not
defined. -/
theorem mem_boundaryNames_iff_mentions (distinct : program.symbolNames.Nodup) (name : String) :
    name ∈ program.boundaryNames ↔
      name ∉ program.symbolNames ∧ ∃ source, program.Mentions source name := by
  rw [mem_boundaryNames_iff]
  refine and_congr_right fun undefined => ⟨?_, ?_⟩
  · intro used
    rcases used with ⟨edge, pending, target⟩
    rcases links_or_annotates pending with links | ⟨_, _, _, _, tagTarget⟩
    · rcases links.mentions distinct with ⟨source, _, mentions⟩
      rw [target] at mentions
      exact ⟨source, mentions⟩
    · rw [target] at tagTarget
      cases tagTarget
  · intro mentioned
    rcases mentioned with ⟨source, mentions⟩
    rcases mentions.links distinct with ⟨node, target, _, named, links⟩
    cases target with
    | named other =>
        obtain rfl : other = name := named
        rcases links.exists_pending with ⟨_, _, pending⟩
        exact ⟨_, pending, rfl⟩
    | node symbol =>
        have within := links.symbol distinct rfl
        have placed := List.getElem?_eq_getElem within
        rw [targetName, placed, Option.getD_some] at named
        exact absurd (named ▸ List.getElem_mem within) undefined

end Program

/-! ## Nodes and names -/

namespace ProgramGraph

variable {program : Program} {node : Nat} {name : String}

theorem names_nodup (distinct : program.symbolNames.Nodup) : program.nodeNames.Nodup := by
  refine List.Nodup.append distinct (Worklist.nodup_eraseDups _) ?_
  intro name defined isBoundary
  exact ((Program.mem_boundaryNames_iff name).mp isBoundary).1 defined

theorem node_unique (distinct : program.symbolNames.Nodup) {other : Nat}
    (placed : program.nodeNames[node]? = some name)
    (otherPlaced : program.nodeNames[other]? = some name) : node = other :=
  Program.index_unique (names_nodup distinct) placed otherPlaced

theorem find?_eq_some_iff (distinct : program.symbolNames.Nodup) :
    (ofProgram program).find? name = some node ↔ program.nodeNames[node]? = some name := by
  rw [find?_ofProgram, List.idxOf?_eq_some_iff]
  constructor
  · rintro ⟨within, named, _⟩
    exact List.getElem?_eq_some_iff.mpr ⟨within, named⟩
  · intro placed
    rcases List.getElem?_eq_some_iff.mp placed with ⟨within, named⟩
    refine ⟨within, named, ?_⟩
    intro earlier less sameName
    have placedEarlier := List.getElem?_eq_some_iff.mpr ⟨_, sameName⟩
    have same := Program.index_unique (names_nodup distinct) placedEarlier placed
    omega

theorem mem_names_iff : name ∈ program.nodeNames ↔
    name ∈ program.symbolNames ∨ name ∈ program.boundaryNames :=
  List.mem_append

theorem names_boundary (isBoundary : name ∈ program.boundaryNames) :
    program.nodeNames[(ofProgram program).nodeAt (.named name)]? = some name := by
  have undefined := ((Program.mem_boundaryNames_iff name).mp isBoundary).1
  have within := List.idxOf_lt_length_of_mem isBoundary
  rw [nodeAt_boundary undefined, Program.nodeNames, Program.namesOf,
    List.getElem?_append_right (Nat.le_add_right _ _), Nat.add_sub_cancel_left]
  exact (List.getElem?_eq_getElem within).trans (congrArg some (List.getElem_idxOf within))

theorem boundary?_eq_some_iff :
    (ofProgram program).boundary? name = some node ↔
      name ∈ program.boundaryNames ∧ node = (ofProgram program).nodeAt (.named name) := by
  constructor
  · intro found
    have isBoundary : name ∈ program.boundaryNames := by
      rw [boundary?_ofProgram] at found
      rcases Option.map_eq_some_iff.mp found with ⟨offset, listed, _⟩
      exact List.isSome_idxOf?.mp (Option.isSome_iff_exists.mpr ⟨offset, listed⟩)
    have undefined := ((Program.mem_boundaryNames_iff name).mp isBoundary).1
    rw [boundary?_eq_some undefined isBoundary] at found
    exact ⟨isBoundary, (Option.some.inj found).symm⟩
  · rintro ⟨isBoundary, rfl⟩
    exact boundary?_eq_some ((Program.mem_boundaryNames_iff name).mp isBoundary).1 isBoundary

theorem names_of_links (distinct : program.symbolNames.Nodup) {source : Nat} {target : Target}
    (links : program.Links source target) :
    program.nodeNames[(ofProgram program).nodeAt target]? =
      some (program.targetName target) := by
  cases target with
  | node symbol =>
      have placed := List.getElem?_eq_getElem (links.symbol distinct rfl)
      rw [Program.targetName, placed]
      exact nodeNames_getElem? placed
  | named name =>
      by_cases defined : name ∈ program.symbolNames
      · rcases List.mem_iff_getElem?.mp defined with ⟨symbol, placed⟩
        rw [nodeAt_named distinct placed]
        exact nodeNames_getElem? placed
      · rcases links.exists_pending with ⟨_, _, pending⟩
        exact names_boundary
          ((Program.mem_boundaryNames_iff name).mpr ⟨defined, _, pending, rfl⟩)

theorem mem_followed_iff_links (node target : Nat) :
    target ∈ (ofProgram program).view.followed node ↔
      ∃ symbol, program.Links node symbol ∧ (ofProgram program).nodeAt symbol = target := by
  constructor
  · intro followed
    rcases List.mem_map.mp followed with ⟨⟨target, kind⟩, leaves, rfl⟩
    rcases List.mem_filter.mp leaves with ⟨leaves, traversed⟩
    have edge := (mem_outgoing_iff _ _ _).mp leaves
    rw [ofProgram_edges] at edge
    rcases List.mem_append.mp edge with ofProgram | ofOverride
    · rcases List.mem_map.mp (List.mem_eraseDups.mp ofProgram) with ⟨pendingEdge, pending, same⟩
      cases same
      rcases Program.links_or_annotates pending with links | ⟨annotates, _⟩
      · exact ⟨_, links, rfl⟩
      · rw [annotates] at traversed
        cases traversed
    · rcases List.mem_map.mp ofOverride with ⟨_, _, same⟩
      cases same
      cases traversed
  · rintro ⟨symbol, links, rfl⟩
    rcases links.exists_pending with ⟨kind, traversed, pending⟩
    exact followed_of_pending pending traversed

end ProgramGraph

/-! ## Overriding -/

namespace Program

variable {program : Program}

def Overrides (program : Program) (overrider overridden : String) : Prop :=
  ∃ pair ∈ (ofProgram program).overridePairs,
    program.nodeNames[pair.1]? = some overrider ∧
      program.nodeNames[pair.2]? = some overridden

theorem HasVirtual.memberNode_eq {signature : Signature} {method : MemberPosition}
    (has : program.HasVirtual signature method) :
    (ofProgram program).memberNode method.owner method.index = program.memberNode method := by
  rcases has with ⟨member, present, _⟩
  rcases memberAt?_eq_some_iff.mp present with ⟨declaration, declared, has⟩
  exact ProgramGraph.memberNode_eq declared has

theorem hasVirtual_of_mem_methodPairs (distinct : program.symbolNames.Nodup)
    {pair : MemberPosition × MemberPosition} (paired : pair ∈ program.methodPairs) :
    ∃ signature, program.HasVirtual signature pair.1 ∧ program.HasVirtual signature pair.2 := by
  rcases mem_methodPairs_iff.mp paired with ⟨_, _, arises⟩
  rcases mem_methodPairsAt_iff.mp arises with ⟨signature, runs, has, _⟩
  exact ⟨signature, (hasVirtual_of_dispatch? distinct runs).2, has⟩

theorem hasVirtual_of_mem_libraryPairs (distinct : program.symbolNames.Nodup)
    {boundary? : String → Option Nat} {pair : MemberPosition × Nat}
    (paired : pair ∈ program.libraryPairs boundary?) :
    ∃ signature owner, program.HasVirtual signature pair.1 ∧
      boundary? (signature.key owner) = some pair.2 := by
  rcases mem_libraryPairs_iff.mp paired with ⟨_, _, arises⟩
  rcases mem_libraryPairsAt_iff.mp arises with ⟨signature, runs, owner, _, found⟩
  exact ⟨signature, owner, (hasVirtual_of_dispatch? distinct runs).2, found⟩

theorem methodPairs_nodes (distinct : program.symbolNames.Nodup) :
    (program.methodPairs.map fun pair =>
      ((ofProgram program).memberNode pair.1.owner pair.1.index,
        (ofProgram program).memberNode pair.2.owner pair.2.index)) =
      program.methodPairs.map fun pair =>
        (program.memberNode pair.1, program.memberNode pair.2) := by
  refine List.map_congr_left fun pair paired => ?_
  rcases hasVirtual_of_mem_methodPairs distinct paired with ⟨_, has, otherHas⟩
  exact Prod.ext has.memberNode_eq otherHas.memberNode_eq

theorem libraryPairs_nodes (distinct : program.symbolNames.Nodup)
    (boundary? : String → Option Nat) :
    ((program.libraryPairs boundary?).map fun pair =>
      ((ofProgram program).memberNode pair.1.owner pair.1.index, pair.2)) =
      (program.libraryPairs boundary?).map fun pair => (program.memberNode pair.1, pair.2) := by
  refine List.map_congr_left fun pair paired => ?_
  rcases hasVirtual_of_mem_libraryPairs distinct paired with ⟨_, _, has, _⟩
  exact Prod.ext has.memberNode_eq rfl

theorem overridePairs_eq (distinct : program.symbolNames.Nodup) :
    (ofProgram program).overridePairs =
      program.methodPairs.map (fun pair =>
          (program.memberNode pair.1, program.memberNode pair.2)) ++
        (program.libraryPairs (ofProgram program).boundary?).map fun pair =>
          (program.memberNode pair.1, pair.2) :=
  congrArg₂ _ (methodPairs_nodes distinct) (libraryPairs_nodes distinct _)

theorem mem_overridePairs_iff (distinct : program.symbolNames.Nodup) {overrider overridden : Nat} :
    (overrider, overridden) ∈ (ofProgram program).overridePairs ↔
      (∃ method other, (method, other) ∈ program.methodPairs ∧
        overrider = program.memberNode method ∧ overridden = program.memberNode other) ∨
      ∃ method, (method, overridden) ∈ program.libraryPairs (ofProgram program).boundary? ∧
        overrider = program.memberNode method := by
  simp only [overridePairs_eq distinct, List.mem_append, List.mem_map, Prod.exists, Prod.mk.injEq,
    eq_comm (b := overrider), eq_comm (b := overridden)]
  refine or_congr Iff.rfl ⟨?_, ?_⟩
  · rintro ⟨method, _, paired, left, rfl⟩
    exact ⟨method, paired, left⟩
  · rintro ⟨method, paired, left⟩
    exact ⟨method, _, paired, left, rfl⟩

/-- A pair consists of a virtual method that overrides and of another virtual
method or a boundary symbol. -/
theorem kinds_of_mem_overridePairs (distinct : program.symbolNames.Nodup)
    {overrider overridden : Nat}
    (paired : (overrider, overridden) ∈ (ofProgram program).overridePairs) :
    (∃ signature method, program.HasVirtual signature method ∧
        overrider = program.memberNode method) ∧
      ((∃ signature method, program.HasVirtual signature method ∧
          overridden = program.memberNode method) ∨
        ∃ name ∈ program.boundaryNames, overridden = (ofProgram program).nodeAt (.named name)) := by
  rcases (mem_overridePairs_iff distinct).mp paired with
    ⟨method, other, ofMethods, rfl, rfl⟩ | ⟨method, ofLibrary, rfl⟩
  · rcases hasVirtual_of_mem_methodPairs distinct ofMethods with ⟨signature, has, otherHas⟩
    exact ⟨⟨signature, method, has, rfl⟩, .inl ⟨signature, other, otherHas, rfl⟩⟩
  · rcases hasVirtual_of_mem_libraryPairs distinct ofLibrary with ⟨signature, owner, has, found⟩
    rcases ProgramGraph.boundary?_eq_some_iff.mp found with ⟨isBoundary, equal⟩
    exact ⟨⟨signature, method, has, rfl⟩, .inr ⟨_, isBoundary, equal⟩⟩

theorem HasVirtual.placed {signature : Signature} {method : MemberPosition}
    (has : program.HasVirtual signature method) :
    ∃ declaration, program.classes[method.owner]? = some declaration ∧
      program.symbolNames[program.memberNode method]? = some (signature.key declaration.name) := by
  rcases has with ⟨member, present, _, rfl⟩
  rcases memberAt?_eq_some_iff.mp present with ⟨declaration, declared, has⟩
  exact ⟨declaration, declared, symbolNames_memberNode declared has⟩

theorem exists_overrides (distinct : program.symbolNames.Nodup) {overrider overridden : Nat}
    (paired : (overrider, overridden) ∈ (ofProgram program).overridePairs) :
    ∃ overriderName overriddenName,
      program.nodeNames[overrider]? = some overriderName ∧
        program.nodeNames[overridden]? = some overriddenName ∧
        program.Overrides overriderName overriddenName := by
  have virtualPlaced {signature : Signature} {method : MemberPosition}
      (has : program.HasVirtual signature method) :
      ∃ name, program.nodeNames[program.memberNode method]? = some name := by
    rcases has.placed with ⟨_, _, placed⟩
    exact ⟨_, ProgramGraph.nodeNames_getElem? placed⟩
  rcases kinds_of_mem_overridePairs distinct paired with
    ⟨⟨_, method, has, rfl⟩, ⟨_, other, otherHas, rfl⟩ | ⟨name, isBoundary, rfl⟩⟩
  · rcases virtualPlaced has with ⟨overriderName, placed⟩
    rcases virtualPlaced otherHas with ⟨overriddenName, otherPlaced⟩
    exact ⟨_, _, placed, otherPlaced, _, paired, placed, otherPlaced⟩
  · rcases virtualPlaced has with ⟨overriderName, placed⟩
    have otherPlaced := ProgramGraph.names_boundary isBoundary
    exact ⟨_, _, placed, otherPlaced, _, paired, placed, otherPlaced⟩

end Program

/-! ## Static initializers -/

def Member.isStaticInitializer (member : Member) : Bool :=
  member.kind = .method && member.name = staticInitializerName

def ClassDecl.initializer? (declaration : ClassDecl) : Option Member :=
  declaration.members.find? Member.isStaticInitializer

namespace ProgramGraph

variable {program : Program} {position node : Nat} {declaration : ClassDecl} {member : Member}

theorem initializerAt?_eq (declared : program.classes[position]? = some declaration) :
    (ofProgram program).initializerAt? position =
      (declaration.members.findIdx? Member.isStaticInitializer).map fun index =>
        program.memberNode ⟨position, index⟩ := by
  have same : (ofProgram program).program = program := rfl
  rw [initializerAt?, same, declared, Option.bind_some]
  refine Option.map_congr fun index found => ?_
  have ⟨within, _⟩ := List.findIdx?_eq_some_iff_getElem.mp found
  exact memberNode_eq declared (List.getElem?_eq_getElem within)

theorem name_of_initializerAt? (declared : program.classes[position]? = some declaration)
    (found : (ofProgram program).initializerAt? position = some node) :
    ∃ member, declaration.initializer? = some member ∧
      program.symbolNames[node]? = some (member.qualifiedName declaration.name) := by
  rw [initializerAt?_eq declared, Option.map_eq_some_iff] at found
  rcases found with ⟨index, found, rfl⟩
  have ⟨within, _⟩ := List.findIdx?_eq_some_iff_getElem.mp found
  obtain ⟨member, has⟩ : ∃ member, declaration.members[index]? = some member :=
    ⟨_, List.getElem?_eq_getElem within⟩
  refine ⟨member, ?_, Program.symbolNames_memberNode declared has⟩
  rw [ClassDecl.initializer?, List.find?_eq_bind_findIdx?_getElem?, found]
  exact has

theorem exists_initializerAt? (declared : program.classes[position]? = some declaration)
    (first : declaration.initializer? = some member) :
    ∃ node, (ofProgram program).initializerAt? position = some node ∧
      program.symbolNames[node]? = some (member.qualifiedName declaration.name) := by
  rw [ClassDecl.initializer?, List.find?_eq_bind_findIdx?_getElem?,
    Option.bind_eq_some_iff] at first
  rcases first with ⟨index, found, has⟩
  refine ⟨_, ?_, Program.symbolNames_memberNode declared has⟩
  rw [initializerAt?_eq declared, found]
  rfl

theorem view_staticInitializer? (declared : program.classes[position]? = some declaration) :
    (ofProgram program).view.staticInitializer? (program.classNode position) =
      (ofProgram program).initializerAt? position := by
  simp [view, node_classNode declared]

theorem exists_class_of_kind (inside : (ofProgram program).view.contains node)
    (isClass : (ofProgram program).view.kind node = .classDecl) :
    ∃ position declaration, program.classes[position]? = some declaration ∧
      node = program.classNode position := by
  rw [view_contains, nodeNames_length] at inside
  by_cases defined : node < program.symbolNames.length
  · rcases Program.exists_symbol defined with
      ⟨position, declaration, declared, rfl⟩ |
        ⟨position, index, declaration, member, declared, has, rfl⟩
    · exact ⟨position, declaration, declared, rfl⟩
    · have kind := kind_memberNode declared has
      rw [isClass] at kind
      cases isMember : member.kind <;> simp [isMember, MemberKind.symbolKind] at kind
  · obtain ⟨offset, rfl⟩ := Nat.exists_eq_add_of_le (Nat.le_of_not_lt defined)
    rw [kind_boundary (by omega)] at isClass
    cases isClass

end ProgramGraph

/-! ## Needs -/

namespace Program

/-- A symbol needs another: marking goes from the one to the other. -/
inductive Needs (program : Program) : String → String → Prop
  | mentioned {source target : String} :
      program.Mentions source target → Needs program source target
  | overridden {overrider overridden : String} :
      program.Overrides overrider overridden → Needs program overrider overridden
  | overrider {overrider overridden : String} :
      program.Overrides overrider overridden → Needs program overridden overrider
  | initializer {declaration : ClassDecl} {member : Member} :
      declaration ∈ program.classes → declaration.initializer? = some member →
        Needs program declaration.name (member.qualifiedName declaration.name)

end Program

namespace ProgramGraph

variable {program : Program} {node target : Nat} {source : String}

theorem kinds_of_paired (distinct : program.symbolNames.Nodup) {overrider overridden : Nat}
    (paired : (overrider, overridden) ∈ (ofProgram program).overridePairs) :
    (ofProgram program).view.kind overrider = .method ∧
      ((ofProgram program).view.kind overridden = .method ∨
        (ofProgram program).view.kind overridden = .boundary) := by
  rcases Program.kinds_of_mem_overridePairs distinct paired with
    ⟨⟨_, method, has, rfl⟩, ⟨_, other, otherHas, rfl⟩ | ⟨name, isBoundary, rfl⟩⟩
  · exact ⟨kind_of_virtual has, .inl (kind_of_virtual otherHas)⟩
  · refine ⟨kind_of_virtual has, .inr ?_⟩
    rw [nodeAt_boundary ((Program.mem_boundaryNames_iff name).mp isBoundary).1]
    exact kind_boundary (List.idxOf_lt_length_of_mem isBoundary)

theorem mem_companions_of_paired (distinct : program.symbolNames.Nodup)
    (paired : (target, node) ∈ (ofProgram program).overridePairs ∨
      (node, target) ∈ (ofProgram program).overridePairs) :
    target ∈ (ofProgram program).view.companions node := by
  have listed : target ∈ (ofProgram program).view.overriddenBy node ++
      (ofProgram program).view.overrides node := by
    rw [List.mem_append, mem_overriddenBy_iff, mem_overrides_iff]
    exact paired
  have kind : (ofProgram program).view.kind node = .method ∨
      (ofProgram program).view.kind node = .boundary := by
    rcases paired with overrider | overridden
    · exact (kinds_of_paired distinct overrider).2
    · exact .inl (kinds_of_paired distinct overridden).1
  rw [SymbolGraph.companions]
  rcases kind with kind | kind <;> rw [kind] <;> exact listed

theorem needs_of_mem_companions (distinct : program.symbolNames.Nodup)
    (placed : program.nodeNames[node]? = some source)
    (companion : target ∈ (ofProgram program).view.companions node) :
    ∃ name, program.nodeNames[target]? = some name ∧ program.Needs source name := by
  have ofPairs (listed : target ∈ (ofProgram program).view.overriddenBy node ++
      (ofProgram program).view.overrides node) :
      ∃ name, program.nodeNames[target]? = some name ∧ program.Needs source name := by
    rw [List.mem_append, mem_overriddenBy_iff, mem_overrides_iff] at listed
    rcases listed with paired | paired
    · rcases Program.exists_overrides distinct paired with
        ⟨name, same, targetPlaced, samePlaced, overrides⟩
      rw [placed] at samePlaced
      cases samePlaced
      exact ⟨name, targetPlaced, .overrider overrides⟩
    · rcases Program.exists_overrides distinct paired with
        ⟨same, name, samePlaced, targetPlaced, overrides⟩
      rw [placed] at samePlaced
      cases samePlaced
      exact ⟨name, targetPlaced, .overridden overrides⟩
  rw [SymbolGraph.companions] at companion
  cases kind : (ofProgram program).view.kind node with
  | method =>
      rw [kind] at companion
      exact ofPairs companion
  | boundary =>
      rw [kind] at companion
      exact ofPairs companion
  | field =>
      rw [kind] at companion
      cases companion
  | classDecl =>
      rw [kind, Option.mem_toList] at companion
      have inside := (view_contains node).mpr (List.getElem?_eq_some_iff.mp placed).1
      rcases exists_class_of_kind inside kind with ⟨position, declaration, declared, rfl⟩
      rw [nodeNames_getElem? (Program.symbolNames_classNode declared)] at placed
      cases placed
      have found := (view_staticInitializer? declared).symm.trans companion
      rcases name_of_initializerAt? declared found with ⟨member, first, targetPlaced⟩
      exact ⟨_, nodeNames_getElem? targetPlaced,
        .initializer (List.mem_of_getElem? declared) first⟩

theorem exists_successor_of_needs (distinct : program.symbolNames.Nodup) {name : String}
    (needs : program.Needs source name) :
    ∃ node target, program.nodeNames[node]? = some source ∧
      program.nodeNames[target]? = some name ∧
      target ∈ (ofProgram program).view.successors node := by
  cases needs with
  | mentioned mentions =>
      rcases mentions.links distinct with ⟨node, target, placed, rfl, links⟩
      exact ⟨node, _, nodeNames_getElem? placed, names_of_links distinct links,
        List.mem_append_left _ ((mem_followed_iff_links _ _).mpr ⟨target, links, rfl⟩)⟩
  | overridden overrides =>
      rcases overrides with ⟨⟨overrider, overridden⟩, paired, placed, targetPlaced⟩
      exact ⟨overrider, overridden, placed, targetPlaced,
        List.mem_append_right _ (mem_companions_of_paired distinct (.inr paired))⟩
  | overrider overrides =>
      rcases overrides with ⟨⟨overrider, overridden⟩, paired, targetPlaced, placed⟩
      exact ⟨overridden, overrider, placed, targetPlaced,
        List.mem_append_right _ (mem_companions_of_paired distinct (.inl paired))⟩
  | initializer isClass first =>
      rcases List.mem_iff_getElem?.mp isClass with ⟨position, declared⟩
      obtain ⟨target, found, targetPlaced⟩ :
          ∃ target, (ofProgram program).initializerAt? position = some target ∧ _ :=
        exists_initializerAt? declared first
      refine ⟨program.classNode position, target,
        nodeNames_getElem? (Program.symbolNames_classNode declared),
        nodeNames_getElem? targetPlaced, List.mem_append_right _ ?_⟩
      have kind : (ofProgram program).view.kind (program.classNode position) = .classDecl :=
        kind_classNode declared
      rw [SymbolGraph.companions, kind, Option.mem_toList]
      exact (view_staticInitializer? declared).trans found

/-- Marking goes from a symbol to exactly what it needs, and never out of the
graph. -/
theorem mem_successors_iff_needs (distinct : program.symbolNames.Nodup)
    (placed : program.nodeNames[node]? = some source) :
    target ∈ (ofProgram program).view.successors node ↔
      ∃ name, program.nodeNames[target]? = some name ∧ program.Needs source name := by
  constructor
  · intro successor
    rcases List.mem_append.mp successor with followed | companion
    · rcases (mem_followed_iff_links node target).mp followed with ⟨symbol, links, rfl⟩
      rcases links.mentions distinct with ⟨name, samePlaced, mentions⟩
      rw [nodeNames_getElem? samePlaced] at placed
      cases placed
      exact ⟨_, names_of_links distinct links, .mentioned mentions⟩
    · exact needs_of_mem_companions distinct placed companion
  · rintro ⟨name, targetPlaced, needs⟩
    rcases exists_successor_of_needs distinct needs with
      ⟨sameNode, sameTarget, samePlaced, sameTargetPlaced, successor⟩
    rw [node_unique distinct placed samePlaced, node_unique distinct targetPlaced sameTargetPlaced]
    exact successor

end ProgramGraph

end ClassShrink
