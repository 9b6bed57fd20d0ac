import ClassShrink.Proofs.Integrity

/-! # What a sweep leaves

A sweep fails exactly if the set of nodes that it is given is not closed under the
edges that marking follows. Otherwise it leaves the classes and members of the set,
all of them and no others, as they were and in their order. It makes no difference
whether marking has found the set. -/

namespace ClassShrink

open ProgramGraph (ofProgram)

/-! ## Parts of lists -/

section Parts

variable {α β : Type}

theorem filter_mem_eq_of_sublist [DecidableEq α] {whole part : List α} (distinct : whole.Nodup)
    (isPart : part.Sublist whole) : (whole.filter fun element => element ∈ part) = part := by
  induction isPart with
  | slnil => rfl
  | @cons part rest head isPart induction =>
      rcases List.nodup_cons.mp distinct with ⟨fresh, restDistinct⟩
      have absent : head ∉ part := fun member => fresh (isPart.subset member)
      rw [List.filter_cons_of_neg (by simpa using absent), induction restDistinct]
  | @cons_cons part rest head isPart induction =>
      rcases List.nodup_cons.mp distinct with ⟨fresh, restDistinct⟩
      rw [List.filter_cons_of_pos (by simp)]
      congr 1
      -- The head does not occur again, so it can be left out of the condition.
      rw [← induction restDistinct]
      refine List.filter_congr fun element member => ?_
      have different : element ≠ head := fun equal => fresh (equal ▸ member)
      simp [different, member]

theorem eq_of_sublist_of_mem_iff [DecidableEq α] {whole left right : List α}
    (distinct : whole.Nodup) (leftPart : left.Sublist whole) (rightPart : right.Sublist whole)
    (same : ∀ element, element ∈ left ↔ element ∈ right) : left = right := by
  rw [← filter_mem_eq_of_sublist distinct leftPart, ← filter_mem_eq_of_sublist distinct rightPart]
  simp only [same]

theorem forall₂_filter_zipIdx {elements : List α} {accepts : Nat → Bool} {read : α × Nat → β}
    {leaves : Nat → β → Prop}
    (left : ∀ element place, elements[place]? = some element →
      leaves place (read (element, place))) :
    List.Forall₂ leaves ((List.range elements.length).filter accepts)
      ((elements.zipIdx.filter fun entry => accepts entry.2).map read) := by
  have places : (List.range elements.length).filter accepts =
      (elements.zipIdx.filter fun entry => accepts entry.2).map Prod.snd := by
    rw [List.range_eq_range', ← List.zipIdx_map_snd, List.filter_map]
    rfl
  rw [places, List.forall₂_map_left_iff, List.forall₂_map_right_iff, List.forall₂_same]
  rintro ⟨element, place⟩ member
  exact left element place (List.mk_mem_zipIdx_iff_getElem?.mp (List.mem_filter.mp member).1)

end Parts

/-! ## What is to be left -/

namespace ProgramGraph

section Remaining

variable (graph : ProgramGraph) (program : Program) (reached : List Nat)

def NamesUnreached (tag : String) : Prop :=
  ∃ position ∈ program.positions, graph.classNode position ∉ reached ∧
    ∃ declaration ∈ program.classes[position]?, declaration.name = tag

instance (tag : String) : Decidable (graph.NamesUnreached program reached tag) :=
  inferInstanceAs (Decidable (∃ position ∈ program.positions,
    graph.classNode position ∉ reached ∧
      ∃ declaration ∈ program.classes[position]?, declaration.name = tag))

def reachedTags (tags : List String) : List String :=
  tags.filter fun tag => ¬graph.NamesUnreached program reached tag

def LeavesMember (declaration : ClassDecl) (index : Nat) (left : Member) : Prop :=
  ∃ member, declaration.members[index]? = some member ∧
    left = { member with annotations := graph.reachedTags program reached member.annotations }

/-- What is left of the class at a position: its reached members, and all else but the
tags as it was. -/
def LeavesClass (position : Nat) (left : ClassDecl) : Prop :=
  ∃ declaration, program.classes[position]? = some declaration ∧
    left = { declaration with
      annotations := graph.reachedTags program reached declaration.annotations
      members := left.members } ∧
    List.Forall₂ (graph.LeavesMember program reached declaration)
      ((List.range declaration.members.length).filter fun index =>
        graph.memberNode position index ∈ reached)
      left.members

def Leaves (left : Program) : Prop :=
  List.Forall₂ (graph.LeavesClass program reached)
    (program.positions.filter fun position => graph.classNode position ∈ reached)
    left.classes

/-- The edges that marking follows do not lead out of the set. -/
def Closed : Prop :=
  ∀ edge ∈ graph.edges,
    edge.kind = .references ∨ edge.kind = .extendsClass ∨ edge.kind = .implementsInterface →
    edge.source ∈ reached → edge.target ∈ reached

end Remaining

/-! ## What is left -/

variable {program : Program} {graph : ProgramGraph} {reached : List Nat} {position : Nat}
  {declaration : ClassDecl}

theorem namesRemovedClass_iff (distinct : program.symbolNames.Nodup) (tag : String) :
    program.namesRemovedClass reached tag ↔
      (ofProgram program).NamesUnreached program reached tag := by
  have isClass : program.namesRemovedClass reached tag ↔
      ∃ position, program.position? tag = some position ∧
        program.classNode position ∉ reached := by
    rw [Program.namesRemovedClass]
    cases program.position? tag with
    | none => simp
    | some position => simp
  rw [isClass]
  simp only [Program.position?_eq_some_iff distinct]
  constructor
  · rintro ⟨position, ⟨declaration, declared, named⟩, unreached⟩
    rw [← classNode_eq declared] at unreached
    exact ⟨position, Program.mem_positions_of_declared declared, unreached, declaration,
      Option.mem_def.mpr declared, named⟩
  · rintro ⟨position, _, unreached, declaration, listed, named⟩
    have declared : program.classes[position]? = some declaration := Option.mem_def.mp listed
    rw [classNode_eq declared] at unreached
    exact ⟨position, ⟨declaration, declared, named⟩, unreached⟩

theorem liveTags_eq_reachedTags (distinct : program.symbolNames.Nodup) (tags : List String) :
    program.liveTags reached tags = (ofProgram program).reachedTags program reached tags := by
  refine List.filter_congr fun tag _ => ?_
  rw [Bool.eq_iff_iff, Bool.not_eq_true', decide_eq_true_eq, ← namesRemovedClass_iff distinct,
    Bool.not_eq_true]

theorem leavesClass_thinned (distinct : program.symbolNames.Nodup)
    (declared : program.classes[position]? = some declaration) :
    (ofProgram program).LeavesClass program reached position
      (program.thinned reached declaration position) := by
  have indices : ((List.range declaration.members.length).filter fun index =>
        (ofProgram program).memberNode position index ∈ reached) =
      (List.range declaration.members.length).filter fun index =>
        program.memberNode ⟨position, index⟩ ∈ reached := by
    refine List.filter_congr fun index within => ?_
    rw [memberNode_eq declared (List.getElem?_eq_getElem (List.mem_range.mp within))]
  refine ⟨declaration, declared, ?_, ?_⟩
  · rw [Program.thinned, liveTags_eq_reachedTags distinct]
  · rw [indices, Program.thinned, Program.reachedMembers, Program.reachedOf, List.map_map]
    apply forall₂_filter_zipIdx
    intro member index has
    refine ⟨member, has, ?_⟩
    rw [Function.comp_apply, Program.thinMember, liveTags_eq_reachedTags distinct]

theorem leaves_remainder (distinct : program.symbolNames.Nodup) :
    (ofProgram program).Leaves program reached (program.remainder reached) := by
  have positions : (program.positions.filter fun position =>
        (ofProgram program).classNode position ∈ reached) =
      program.positions.filter fun position => program.classNode position ∈ reached := by
    refine List.filter_congr fun position inside => ?_
    have within : position < program.classes.length := List.mem_range.mp inside
    rw [classNode_eq (List.getElem?_eq_getElem within)]
  rw [Leaves, positions]
  apply forall₂_filter_zipIdx
  intro declaration position declared
  exact leavesClass_thinned distinct declared

/-! ## What is not lost -/

theorem nodes_map_name :
    (ofProgram program).view.nodes.map (ofProgram program).view.name = program.nodeNames := by
  apply List.ext_getElem?
  intro node
  have listed : (ofProgram program).view.nodes = List.range program.nodeNames.length :=
    congrArg List.range (size_ofProgram program)
  rw [listed, List.getElem?_map]
  by_cases within : node < program.nodeNames.length
  · simp [view_name, within]
  · simp [Nat.not_lt.mp within]

theorem Closed.owner (closed : (ofProgram program).Closed reached) {index : Nat} {member : Member}
    (declared : program.classes[position]? = some declaration)
    (has : declaration.members[index]? = some member)
    (retained : program.memberNode ⟨position, index⟩ ∈ reached) :
    program.classNode position ∈ reached :=
  closed _ (edge_of_pending (Program.owner_edge declared has)) (.inl rfl) retained

theorem symbolNames_remainder (distinct : program.symbolNames.Nodup)
    (closed : (ofProgram program).Closed reached) :
    (program.remainder reached).symbolNames =
      ((ofProgram program).view.nodes.filter fun node =>
        node ∈ reached ∧ (ofProgram program).view.kind node ≠ .boundary).map
          (ofProgram program).view.name := by
  -- Both are parts of the names of all nodes, so it is enough to compare their elements.
  apply eq_of_sublist_of_mem_iff (names_nodup distinct)
  · exact Program.symbolNames_remainder_sublist.trans (List.sublist_append_left _ _)
  · rw [← nodes_map_name]
    exact List.filter_sublist.map _
  · intro name
    have owners : ∀ position declaration index member,
        program.classes[position]? = some declaration →
        declaration.members[index]? = some member →
        program.memberNode ⟨position, index⟩ ∈ reached →
        program.classNode position ∈ reached :=
      fun _ _ _ _ declared has => closed.owner declared has
    rw [Program.mem_symbolNames_remainder_iff owners]
    simp only [List.mem_map, List.mem_filter, decide_eq_true_eq, SymbolGraph.mem_nodes_iff]
    constructor
    · rintro ⟨node, retained, placed⟩
      have inGraph := nodeNames_getElem? placed
      refine ⟨node, ⟨contains_of_placed inGraph, retained, ?_⟩, ?_⟩
      · exact kind_ne_boundary (List.getElem?_eq_some_iff.mp placed).1
      · rw [view_name, inGraph, Option.getD_some]
    · rintro ⟨node, ⟨inside, retained, kind⟩, rfl⟩
      have isSymbol : node < program.symbolNames.length := by
        by_contra outside
        have isBoundary := mem_boundaries_of_le inside (Nat.not_lt.mp outside)
        exact kind (mem_boundaries_iff_kind.mp isBoundary).2
      have placed := List.getElem?_eq_getElem isSymbol
      refine ⟨node, retained, ?_⟩
      rw [view_name, nodeNames_getElem? placed]
      exact placed

/-! ## Whether anything is left -/

theorem violation?_eq_none_iff_closed :
    graph.view.violation? reached = none ↔ graph.Closed reached := by
  simp only [SymbolGraph.violation?_eq_none_iff, SymbolGraph.mem_followed_iff, mem_outgoing_iff,
    EdgeKind.isTraversed_iff]
  constructor
  · rintro intact ⟨source, target, kind⟩ present traversed retained
    exact intact source retained target ⟨kind, present, traversed⟩
  · rintro closed source retained target ⟨kind, present, traversed⟩
    exact closed _ present traversed retained

theorem sweep_cases (distinct : program.symbolNames.Nodup) (reached : List Nat) :
    (¬(ofProgram program).Closed reached ∧
      ∃ error, (ofProgram program).sweep reached = .error error) ∨
    ((ofProgram program).Closed reached ∧ (ofProgram program).sweep reached =
      .ok ⟨program.remainder reached, program.account reached⟩) := by
  rw [← violation?_eq_none_iff_closed, sweep_eq distinct]
  cases (ofProgram program).view.violation? reached with
  | some error => exact .inl ⟨Option.some_ne_none error, error, rfl⟩
  | none => exact .inr ⟨rfl, rfl⟩

end ProgramGraph

/-- A sweep of a graph that was built fails exactly if the set of nodes is not closed.
If it is, the classes and members at its nodes are left as they were and in their
order, except for tags that name other classes. None of them is lost: the names
that are left are those of the set, but for boundary symbols. -/
theorem ProgramGraph.sweep_exact {program : Program} {graph : ProgramGraph} {parallel : Bool}
    (built : ProgramGraph.build program parallel = .ok graph) (reached : List Nat) :
    ((∃ error, graph.sweep reached = .error error) ↔ ¬graph.Closed reached) ∧
    (graph.Closed reached → ∃ outcome, graph.sweep reached = .ok outcome ∧
      graph.Leaves program reached outcome.program ∧
      outcome.program.symbolNames = (graph.view.nodes.filter fun node =>
        node ∈ reached ∧ graph.view.kind node ≠ .boundary).map graph.view.name) := by
  rcases build_eq_ok_iff.mp built with ⟨distinct, _, rfl⟩
  rcases sweep_cases distinct reached with ⟨leaking, error, failed⟩ | ⟨closed, swept⟩
  · exact ⟨iff_of_true ⟨error, failed⟩ leaking, fun closed => absurd closed leaking⟩
  · exact ⟨by simp [swept, closed], fun _ => ⟨_, swept, leaves_remainder distinct,
      symbolNames_remainder distinct closed⟩⟩

namespace IdleMember

/-! A class with a tag that names another class of the program. No marking reaches
the second member without the first. -/

def program : Program :=
  ⟨[{ name := "Keeper", annotations := ["Gone", "Library"]
      members :=
        [{ kind := .method, name := "<clinit>", descriptor := "" },
          { kind := .field, name := "idle", descriptor := "" }] },
    { name := "Gone" }]⟩

/-- The class and its second member can be left alone, the member without its class
cannot. -/
theorem swept_without_initializer :
    ∃ graph, ProgramGraph.build program = .ok graph ∧
      (∃ error, graph.sweep [2] = .error error) ∧
      ∃ outcome, graph.sweep [2, 0] = .ok outcome ∧ graph.Leaves program [2, 0] outcome.program ∧
        outcome.program.symbolNames = ["Keeper", "Keeper.idle:"] := by
  have built : ProgramGraph.build program = .ok (ofProgram program) :=
    ProgramGraph.build_eq_ok_iff.mpr ⟨by decide +kernel, by decide +kernel, rfl⟩
  have leaking : ¬(ofProgram program).Closed [2] := by
    unfold ProgramGraph.Closed
    decide +kernel
  have closed : (ofProgram program).Closed [2, 0] := by
    unfold ProgramGraph.Closed
    decide +kernel
  rcases (ProgramGraph.sweep_exact built [2, 0]).2 closed with ⟨outcome, swept, leaves, names⟩
  have listed : ((ofProgram program).view.nodes.filter fun node =>
      node ∈ [2, 0] ∧ (ofProgram program).view.kind node ≠ .boundary).map
        (ofProgram program).view.name = ["Keeper", "Keeper.idle:"] := by
    decide +kernel
  exact ⟨_, built, (ProgramGraph.sweep_exact built [2]).1.mpr leaking, outcome, swept, leaves,
    names.trans listed⟩

end IdleMember

end ClassShrink
