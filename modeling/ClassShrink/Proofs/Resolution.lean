import ClassShrink.Proofs.Blueprint
import ClassShrink.Proofs.Lookup

/-! # Resolving the classes

Over the symbols of a program, a class has the edges of its declarations, unless one
of its references asks in vain. If the classes are resolved in turn, the first class
with such a reference decides; of workers, the one that is first to hand in such a
class. -/

namespace ClassShrink

def unresolvedFault (site : String × String) : ShrinkError :=
  .unresolvedMember site.1 site.2

namespace Program

variable {program : Program} {position owner : Nat} {signature : Signature}

theorem exists_declared_of_position? {name : String}
    (found : program.position? name = some position) :
    ∃ declaration, program.classes[position]? = some declaration :=
  ⟨_, List.getElem?_eq_getElem (List.mem_range.mp (mem_positions_of_position? found))⟩

theorem exists_member_of_lookup {method : MemberPosition}
    (found : program.lookup owner signature = .found method) :
    ∃ declaration member, program.classes[method.owner]? = some declaration ∧
      declaration.members[method.index]? = some member := by
  rcases List.exists_of_findSome?_eq_some (lookup_eq_found_iff.mp found) with ⟨position, _, placed⟩
  rw [declared?, Option.bind_eq_some_iff] at placed
  rcases placed with ⟨declaration, declared, placed⟩
  rcases Option.map_eq_some_iff.mp placed with ⟨index, first, rfl⟩
  rcases List.findIdx?_eq_some_iff_getElem.mp first with ⟨within, _, _⟩
  exact ⟨declaration, declaration.members[index], declared, List.getElem?_eq_getElem within⟩

def referenceFault? (program : Program) (source : String) (reference : Reference) :
    Option ShrinkError :=
  (Option.guard program.isUnresolved reference).map fun reference =>
    unresolvedFault (source, reference.qualifiedName)

def faultAt? (program : Program) (position : Nat) : Option ShrinkError :=
  (program.classes[position]?.bind program.unresolvedIn?).map unresolvedFault

def edgesOf (program : Program) (position : Nat) : List PendingEdge :=
  match program.classes[position]? with
  | some declaration => program.classEdges declaration position
  | none => []

end Program

namespace ProgramGraph

variable {program : Program} {position index : Nat} {declaration : ClassDecl} {member : Member}

/-! ## One class -/

theorem classTarget_laidOut (program : Program) (name : String) :
    (laidOut program).classTarget name = program.classTarget name := by
  rw [classTarget, Program.classTarget]
  cases found : program.position? name with
  | none => simp [laidOut, found]
  | some position =>
      rcases Program.exists_declared_of_position? found with ⟨declaration, declared⟩
      simp [laidOut, found, ← classNode_laidOut declared]

theorem referenceTarget_laidOut (program : Program) (source : String) (reference : Reference) :
    (laidOut program).referenceTarget source reference =
      refuse (program.referenceFault? source reference) (program.referenceTarget reference) := by
  have same : (laidOut program).program = program := rfl
  rw [referenceTarget, Program.referenceFault?, Option.guard, Program.isUnresolved,
    Program.referenceTarget, classTarget_laidOut, same]
  cases asks : reference.signature? with
  | none => rfl
  | some signature =>
      cases found : program.position? reference.owner with
      | none => rfl
      | some owner =>
          cases binds : program.lookup owner signature with
          | missing => simp [binds, unresolvedFault]
          | maybeInherited => simp [binds]
          | found method =>
              rcases Program.exists_member_of_lookup binds with ⟨declaration, member, declared, has⟩
              simp [binds, memberNode_laidOut declared has]

theorem map_defined_laidOut (names : List String) (edge : Nat → PendingEdge) :
    (program.defined names).map (fun position => edge ((laidOut program).classNode position)) =
      (program.defined names).map fun position => edge (program.classNode position) := by
  refine List.map_congr_left fun position isDefined => ?_
  rcases (Program.mem_defined_iff names).mp isDefined with ⟨name, _, found⟩
  rcases Program.exists_declared_of_position? found with ⟨declaration, declared⟩
  rw [classNode_laidOut declared]

theorem annotationEdges_laidOut (source : Nat) (tags : List String) :
    (laidOut program).annotationEdges source tags = program.annotationEdges source tags :=
  map_defined_laidOut tags fun node => ⟨source, .node node, .annotatedBy⟩

theorem referenceEdges_laidOut (source : Nat) (name : String) (reference : Reference) :
    (laidOut program).referenceEdges source name reference =
      refuse (program.referenceFault? name reference)
        (program.referenceEdges source reference) := by
  have owners : (program.defined [reference.owner]).map (fun position => (⟨source,
      .node ((laidOut program).classNode position), .references⟩ : PendingEdge)) = _ :=
    map_defined_laidOut [reference.owner] fun node => ⟨source, .node node, .references⟩
  have same : (laidOut program).program = program := rfl
  rw [referenceEdges, referenceTarget_laidOut, refuse_bind_pure, Program.referenceEdges, same]
  by_cases isMember : reference.name.isSome
  · simp only [if_pos isMember, owners]
  · simp only [if_neg isMember, List.map_nil]

theorem memberEdges_laidOut (declared : program.classes[position]? = some declaration)
    (has : declaration.members[index]? = some member) :
    (laidOut program).memberEdges declaration position member index =
      refuse (((member.references.find? program.isUnresolved).map fun reference =>
          (member.qualifiedName declaration.name, reference.qualifiedName)).map unresolvedFault)
        (program.memberEdges position member index) := by
  have references : member.references.mapM ((laidOut program).referenceEdges
      ((laidOut program).memberNode position index) (member.qualifiedName declaration.name)) =
      refuse (member.references.findSome?
          (program.referenceFault? (member.qualifiedName declaration.name)))
        (member.references.map
          (program.referenceEdges (program.memberNode ⟨position, index⟩))) := by
    apply mapM_refuse
    intro reference _
    rw [memberNode_laidOut declared has, referenceEdges_laidOut]
  have fault : member.references.findSome?
      (program.referenceFault? (member.qualifiedName declaration.name)) =
      ((member.references.find? program.isUnresolved).map fun reference =>
        (member.qualifiedName declaration.name, reference.qualifiedName)).map unresolvedFault := by
    rw [← List.findSome?_guard, Option.map_map, List.map_findSome?]
    rfl
  rw [memberEdges, references, fault, refuse_bind_pure, memberNode_laidOut declared has,
    classNode_laidOut declared, annotationEdges_laidOut, Program.memberEdges, List.flatMap_def]

theorem classEdges_laidOut (declared : program.classes[position]? = some declaration) :
    (laidOut program).classEdges declaration position =
      refuse ((program.unresolvedIn? declaration).map unresolvedFault)
        (program.classEdges declaration position) := by
  have members : declaration.members.zipIdx.mapM (fun entry =>
      (laidOut program).memberEdges declaration position entry.1 entry.2) =
      refuse (declaration.members.zipIdx.findSome? fun entry =>
          ((entry.1.references.find? program.isUnresolved).map fun reference =>
            (entry.1.qualifiedName declaration.name, reference.qualifiedName)).map unresolvedFault)
        (declaration.members.zipIdx.map fun entry =>
          program.memberEdges position entry.1 entry.2) := by
    apply mapM_refuse
    rintro ⟨member, index⟩ listed
    exact memberEdges_laidOut declared (List.mk_mem_zipIdx_iff_getElem?.mp listed)
  have fault : (declaration.members.zipIdx.findSome? fun entry =>
      ((entry.1.references.find? program.isUnresolved).map fun reference =>
        (entry.1.qualifiedName declaration.name, reference.qualifiedName)).map unresolvedFault) =
      (program.unresolvedIn? declaration).map unresolvedFault := by
    rw [Program.unresolvedIn?, List.map_findSome?]
    conv_rhs => rw [← List.zipIdx_map_fst 0 declaration.members, List.findSome?_map]
    rfl
  rw [classEdges]
  refine (congrArg (· >>= _) members).trans ?_
  rw [fault, refuse_bind_pure, Program.classEdges]
  simp only [classNode_laidOut declared, annotationEdges_laidOut, classTarget_laidOut,
    List.flatMap_def]

theorem edgesAt_laidOut (program : Program) (position : Nat) :
    (laidOut program).edgesAt position =
      refuse (program.faultAt? position) (program.edgesOf position) := by
  have same : (laidOut program).program = program := rfl
  rw [edgesAt, Program.faultAt?, Program.edgesOf, same]
  cases declared : program.classes[position]? with
  | none => rfl
  | some declaration => exact classEdges_laidOut declared

/-! ## In turn -/

theorem positions_map_entry (program : Program) :
    program.positions.map (fun position => program.classes[position]?.map (·, position)) =
      program.classes.zipIdx.map some := by
  apply List.ext_getElem?
  intro position
  rw [List.getElem?_map, List.getElem?_map, List.getElem?_zipIdx, Program.positions]
  by_cases within : position < program.classes.length
  · simp [within]
  · have beyond := Nat.le_of_not_lt within
    simp [beyond]

theorem flatMap_edgesOf (program : Program) :
    program.positions.flatMap program.edgesOf = program.pendingEdges := by
  let edges (found? : Option (ClassDecl × Nat)) : List PendingEdge :=
    (found?.map fun entry => program.classEdges entry.1 entry.2).getD []
  have edges_eq : program.edgesOf = fun position =>
      edges (program.classes[position]?.map (·, position)) := by
    funext position
    rw [Program.edgesOf]
    cases program.classes[position]? <;> rfl
  rw [edges_eq, ← List.flatMap_map, positions_map_entry, List.flatMap_map]
  rfl

theorem findSome?_faultAt? (program : Program) :
    program.positions.findSome? program.faultAt? =
      program.firstUnresolved?.map unresolvedFault := by
  let fault? (found? : Option (ClassDecl × Nat)) : Option ShrinkError :=
    (found?.bind fun entry => program.unresolvedIn? entry.1).map unresolvedFault
  have fault_eq : program.faultAt? =
      fault? ∘ fun position => program.classes[position]?.map (·, position) := by
    funext position
    rw [Program.faultAt?, Function.comp_apply]
    cases program.classes[position]? <;> rfl
  rw [fault_eq, ← List.findSome?_map, positions_map_entry, List.findSome?_map,
    Program.firstUnresolved?, List.map_findSome?]
  conv_rhs => rw [← List.zipIdx_map_fst 0 program.classes, List.findSome?_map]
  rfl

theorem edgesInTurn_laidOut (program : Program) :
    (laidOut program).edgesInTurn =
      refuse (program.firstUnresolved?.map unresolvedFault) program.pendingEdges := by
  rw [edgesInTurn, foldlM_append_refuse (edgesAt_laidOut program), List.nil_append,
    ← flatMap_edgesOf, ← findSome?_faultAt?]
  rfl

/-! ## By workers -/

/-- What workers have handed in, class by class. -/
structure Gathered (program : Program) (order : List Nat) (gathering : Gathering) : Prop where
  fault : gathering.fault? = order.findSome? program.faultAt?
  edges : gathering.fault? = none → ∀ position ∈ order,
    gathering.gathered.get? position = some (program.edgesOf position)

theorem Gathered.handIn {order : List Nat} {gathering : Gathering}
    (gathered : Gathered program order gathering) (position : Nat) :
    Gathered program (order ++ [position]) (gathering.handIn (laidOut program) position) := by
  rw [Gathering.handIn, edgesAt_laidOut]
  cases saved : gathering.fault? with
  | some fault =>
      have first : order.findSome? program.faultAt? = some fault := gathered.fault.symm.trans saved
      refine ⟨?_, fun noFault => absurd (saved.symm.trans noFault) (Option.some_ne_none fault)⟩
      rw [List.findSome?_append, first]
      exact saved
  | none =>
      have without : order.findSome? program.faultAt? = none := gathered.fault.symm.trans saved
      cases faulty : program.faultAt? position with
      | some fault =>
          refine ⟨?_, fun noFault => absurd noFault (Option.some_ne_none fault)⟩
          simp [List.findSome?_append, without, faulty]
      | none =>
          refine ⟨?_, fun _ other listed => ?_⟩
          · simp [List.findSome?_append, without, faulty]
          · refine (Table.get?_insert _ position other _).trans ?_
            split
            next same => rw [same]
            next different =>
              rcases List.mem_append.mp listed with earlier | last
              · exact gathered.edges saved other earlier
              · exact absurd (List.mem_singleton.mp last) different

theorem Gathered.foldl_handIn {order : List Nat} {gathering : Gathering}
    (gathered : Gathered program order gathering) (rest : List Nat) :
    Gathered program (order ++ rest)
      (rest.foldl (Gathering.handIn (laidOut program)) gathering) := by
  induction rest generalizing order gathering with
  | nil => rwa [List.append_nil]
  | cons position rest induction =>
      have further := induction (gathered.handIn position)
      rwa [List.append_assoc] at further

/-- Whatever order the workers hand the classes in, the first fault in that order is
the answer, and without one the edges are in the order of the classes. -/
theorem edgesByWorkers_laidOut {order : List Nat} (all : order.Perm program.positions) :
    (laidOut program).edgesByWorkers order =
      refuse (order.findSome? program.faultAt?) program.pendingEdges := by
  have start : Gathered program [] {} := ⟨rfl, by simp⟩
  have gathered := start.foldl_handIn order
  rw [List.nil_append] at gathered
  rw [edgesByWorkers, Gathering.answer, ← gathered.fault]
  cases saved : (order.foldl (Gathering.handIn (laidOut program)) {}).fault? with
  | some fault => rfl
  | none =>
      rw [refuse_none, ← flatMap_edgesOf]
      refine congrArg Except.ok (List.flatMap_congr fun position isPosition => ?_)
      rw [gathered.edges saved position (all.mem_iff.mpr isPosition)]
      rfl

end ProgramGraph

end ClassShrink
