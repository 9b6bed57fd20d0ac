import ClassShrink.Proofs.Needs
import ClassShrink.Proofs.Precedence

/-! # Overriding by names

An override pair arises from the calls on some class: its first method runs for
such a call, and the second symbol belongs to a supertype of the class. If it is a
boundary symbol, it has a name that the program uses and does not define. -/

namespace ClassShrink

open ProgramGraph (ofProgram)

namespace Program

variable {program : Program} {receiver declaring upper : String} {signature : Signature}

/-! ## Names that are used -/

section Uses

variable {name : String} {reference : Reference} {place : MemberPosition}

def Binds (program : Program) (reference : Reference) (place : MemberPosition) : Prop :=
  ∃ signature owner declaration, reference.signature? = some signature ∧
    program.classes[owner]? = some declaration ∧ declaration.name = reference.owner ∧
      program.lookup owner signature = .found place

inductive UsesName (program : Program) : String → Prop
  | parent {declaration : ClassDecl} {name : String} :
      declaration ∈ program.classes →
      declaration.superclass = some name ∨ name ∈ declaration.interfaces →
      program.External name → UsesName program name
  | classReference {declaration : ClassDecl} {member : Member} {reference : Reference} :
      declaration ∈ program.classes → member ∈ declaration.members →
      reference ∈ member.references → reference.signature? = none →
      program.External reference.owner → UsesName program reference.owner
  | memberReference {declaration : ClassDecl} {member : Member} {reference : Reference}
      {signature : Signature} :
      declaration ∈ program.classes → member ∈ declaration.members →
      reference ∈ member.references → reference.signature? = some signature →
      (∀ place, ¬program.Binds reference place) →
        UsesName program (signature.key reference.owner)

theorem binds_iff (distinct : program.symbolNames.Nodup) :
    program.Binds reference place ↔
      ∃ signature owner, reference.signature? = some signature ∧
        program.position? reference.owner = some owner ∧
          program.lookup owner signature = .found place := by
  simp only [position?_eq_some_iff distinct]
  constructor
  · rintro ⟨signature, owner, declaration, asks, declared, named, finds⟩
    exact ⟨signature, owner, asks, ⟨declaration, declared, named⟩, finds⟩
  · rintro ⟨signature, owner, asks, ⟨declaration, declared, named⟩, finds⟩
    exact ⟨signature, owner, declaration, asks, declared, named, finds⟩

theorem referenceTarget_of_binds (distinct : program.symbolNames.Nodup)
    (binds : program.Binds reference place) :
    program.referenceTarget reference = .node (program.memberNode place) := by
  rcases (binds_iff distinct).mp binds with ⟨signature, owner, asks, found, finds⟩
  exact referenceTarget_eq_node asks found finds

theorem referenceTarget_of_unbound (distinct : program.symbolNames.Nodup)
    (asks : reference.signature? = some signature)
    (unbound : ∀ place, ¬program.Binds reference place) :
    program.referenceTarget reference = .named (signature.key reference.owner) := by
  apply referenceTarget_eq_named asks
  intro owner found place finds
  exact unbound place ((binds_iff distinct).mpr ⟨signature, owner, asks, found, finds⟩)

theorem classTarget_eq_named_iff {used : String} :
    program.classTarget used = .named name ↔ program.External used ∧ used = name := by
  rw [External, ← position?_eq_none_iff]
  cases found : program.position? used with
  | none => simp [classTarget_eq_named found]
  | some position => simp [classTarget_eq_node found]

theorem usesName_of_reference (distinct : program.symbolNames.Nodup)
    {declaration : ClassDecl} {member : Member} {reference : Reference}
    (isClass : declaration ∈ program.classes) (isMember : member ∈ declaration.members)
    (refers : reference ∈ member.references)
    (target : program.referenceTarget reference = .named name) : program.UsesName name := by
  cases asks : reference.signature? with
  | none =>
      rw [referenceTarget_eq_classTarget asks] at target
      rcases classTarget_eq_named_iff.mp target with ⟨external, rfl⟩
      exact .classReference isClass isMember refers asks external
  | some signature =>
      by_cases binds : ∃ place, program.Binds reference place
      · rcases binds with ⟨place, binds⟩
        rw [referenceTarget_of_binds distinct binds] at target
        cases target
      · rw [not_exists] at binds
        rw [referenceTarget_of_unbound distinct asks binds] at target
        cases target
        exact .memberReference isClass isMember refers asks binds

theorem usesName_iff (distinct : program.symbolNames.Nodup) :
    program.UsesName name ↔ ∃ edge, program.Pending edge ∧ edge.target = .named name := by
  constructor
  · intro uses
    cases uses with
    | parent isClass parent external =>
        rcases List.mem_iff_getElem?.mp isClass with ⟨position, declared⟩
        have target := classTarget_eq_named_iff.mpr ⟨external, rfl⟩
        rcases parent with superclass | interface
        · exact ⟨_, .superclass declared superclass, target⟩
        · exact ⟨_, .interface declared interface, target⟩
    | classReference isClass isMember refers asks external =>
        rcases List.mem_iff_getElem?.mp isClass with ⟨position, declared⟩
        rcases List.mem_iff_getElem?.mp isMember with ⟨index, has⟩
        refine ⟨_, .reference declared has refers, ?_⟩
        rw [referenceTarget_eq_classTarget asks]
        exact classTarget_eq_named_iff.mpr ⟨external, rfl⟩
    | memberReference isClass isMember refers asks unbound =>
        rcases List.mem_iff_getElem?.mp isClass with ⟨position, declared⟩
        rcases List.mem_iff_getElem?.mp isMember with ⟨index, has⟩
        exact ⟨_, .reference declared has refers,
          referenceTarget_of_unbound distinct asks unbound⟩
  · rintro ⟨edge, pending, target⟩
    cases pending with
    | superclass declared superclass =>
        rcases classTarget_eq_named_iff.mp target with ⟨external, rfl⟩
        exact .parent (List.mem_of_getElem? declared) (.inl superclass) external
    | interface declared interface =>
        rcases classTarget_eq_named_iff.mp target with ⟨external, rfl⟩
        exact .parent (List.mem_of_getElem? declared) (.inr interface) external
    | classTag => cases target
    | memberTag => cases target
    | owner => cases target
    | reference declared has refers =>
        exact usesName_of_reference distinct (List.mem_of_getElem? declared)
          (List.mem_of_getElem? has) refers target
    | referenceOwner => cases target

theorem mem_boundaryNames_iff_usesName (distinct : program.symbolNames.Nodup) :
    name ∈ program.boundaryNames ↔ program.UsesName name ∧ name ∉ program.symbolNames := by
  rw [mem_boundaryNames_iff, usesName_iff distinct, and_comm]
  simp only [mem_pendingEdges_iff]

end Uses

/-! ## Override pairs -/

/-- A virtual call on an object of a class runs the method that a class
declares. -/
def Runs (program : Program) (receiver : String) (signature : Signature) (declaring : String) :
    Prop :=
  ∃ (position : Nat) (declaration owner : ClassDecl) (method : MemberPosition),
    program.classes[position]? = some declaration ∧ declaration.name = receiver ∧
      program.dispatch? position signature = some method ∧
      program.classes[method.owner]? = some owner ∧ owner.name = declaring

def DeclaresVirtual (program : Program) (owner : String) (signature : Signature) : Prop :=
  ∃ declaration ∈ program.classes, declaration.name = owner ∧
    ∃ member ∈ declaration.members, member.isVirtual ∧ member.signature = signature

def IsSupertype (program : Program) (lower upper : String) : Prop :=
  upper ≠ lower ∧ Relation.ReflTransGen program.HasParent lower upper

/-- The names of the override pairs that arise from the calls on one class. -/
inductive OverridesOn (program : Program) (receiver : String) : String → String → Prop
  | method {declaring upper : String} {signature : Signature} :
      program.Runs receiver signature declaring → program.IsSupertype receiver upper →
      program.DeclaresVirtual upper signature → declaring ≠ upper →
        OverridesOn program receiver (signature.key declaring) (signature.key upper)
  | library {declaring upper : String} {signature : Signature} :
      program.Runs receiver signature declaring → program.IsSupertype receiver upper →
      program.UsesName (signature.key upper) → signature.key upper ∉ program.symbolNames →
        OverridesOn program receiver (signature.key declaring) (signature.key upper)

theorem declaresVirtual_iff : program.DeclaresVirtual upper signature ↔
    ∃ method declaration, program.HasVirtual signature method ∧
      program.classes[method.owner]? = some declaration ∧ declaration.name = upper := by
  constructor
  · rintro ⟨declaration, isClass, rfl, member, isMember, isVirtual, same⟩
    rcases List.mem_iff_getElem?.mp isClass with ⟨position, declared⟩
    rcases List.mem_iff_getElem?.mp isMember with ⟨index, has⟩
    exact ⟨⟨position, index⟩, declaration,
      ⟨member, memberAt?_eq_some_iff.mpr ⟨declaration, declared, has⟩, isVirtual, same⟩,
      declared, rfl⟩
  · rintro ⟨method, declaration, ⟨member, present, isVirtual, same⟩, declared, rfl⟩
    exact ⟨declaration, List.mem_of_getElem? declared, rfl, member,
      List.mem_of_getElem? (has_of_memberAt? present declared), isVirtual, same⟩

theorem HasVirtual.placed_in {method : MemberPosition} {declaration : ClassDecl}
    (has : program.HasVirtual signature method)
    (declared : program.classes[method.owner]? = some declaration) :
    program.nodeNames[program.memberNode method]? =
      some (signature.key declaration.name) := by
  rcases has.placed with ⟨same, sameDeclared, placed⟩
  rw [declared] at sameDeclared
  cases sameDeclared
  exact ProgramGraph.nodeNames_getElem? placed

theorem OverridesOn.overrides (distinct : program.symbolNames.Nodup)
    {overrider overridden : String}
    (overrides : program.OverridesOn receiver overrider overridden) :
    program.Overrides overrider overridden := by
  cases overrides with
  | method runs above declares apart =>
      rcases runs with ⟨position, declaration, owner, method, declared, rfl, runs, isOwner, rfl⟩
      rcases declaresVirtual_iff.mp declares with ⟨other, upperClass, has, upperDeclared, rfl⟩
      have found := (position?_eq_some_iff distinct upperClass.name).mpr
        ⟨upperClass, upperDeclared, rfl⟩
      have inside := mem_positions_of_declared declared
      have isSupertype : other.owner ∈ program.supertypes position := by
        refine (mem_supertypes_iff inside _).mpr
          ⟨?_, inherits_of_names distinct declared above.2 found⟩
        intro same
        rw [same, declared] at upperDeclared
        exact above.1 (congrArg ClassDecl.name (Option.some.inj upperDeclared)).symm
      have ownersApart : method.owner ≠ other.owner := by
        intro same
        rw [same, upperDeclared] at isOwner
        exact apart (congrArg ClassDecl.name (Option.some.inj isOwner)).symm
      have paired : (method, other) ∈ program.methodPairsAt position :=
        mem_methodPairsAt_iff.mpr ⟨_, runs, has, isSupertype, ownersApart⟩
      exact ⟨(program.memberNode method, program.memberNode other),
        (mem_overridePairs_iff distinct).mpr (.inl ⟨method, other,
          mem_methodPairs_iff.mpr ⟨position, inside, paired⟩, rfl, rfl⟩),
        (hasVirtual_of_dispatch? distinct runs).2.placed_in isOwner, has.placed_in upperDeclared⟩
  | @library _ upper signature runs above uses undefined =>
      have isBoundary := (mem_boundaryNames_iff_usesName distinct).mpr ⟨uses, undefined⟩
      rcases runs with ⟨position, declaration, owner, method, declared, rfl, runs, isOwner, rfl⟩
      have found : (ofProgram program).boundary? (signature.key upper) = some _ :=
        ProgramGraph.boundary?_eq_some_iff.mpr ⟨isBoundary, rfl⟩
      have paired := mem_libraryPairsAt_iff.mpr ⟨_, runs, upper,
        (mem_supertypeNames_iff distinct declared upper).mpr above, found⟩
      exact ⟨(program.memberNode method, _),
        (mem_overridePairs_iff distinct).mpr (.inr ⟨method,
          mem_libraryPairs_iff.mpr ⟨position, mem_positions_of_declared declared, paired⟩, rfl⟩),
        (hasVirtual_of_dispatch? distinct runs).2.placed_in isOwner,
        ProgramGraph.names_boundary isBoundary⟩

theorem Overrides.exists_receiver (distinct : program.symbolNames.Nodup)
    {overrider overridden : String} (overrides : program.Overrides overrider overridden) :
    ∃ receiver, program.OverridesOn receiver overrider overridden := by
  rcases overrides with ⟨⟨node, other⟩, paired, placed, otherPlaced⟩
  have runsOf {position : Nat} {declaration : ClassDecl} {signature : Signature}
      {method : MemberPosition} (declared : program.classes[position]? = some declaration)
      (runs : program.dispatch? position signature = some method)
      (placed : program.nodeNames[program.memberNode method]? = some overrider) :
      ∃ owner, program.classes[method.owner]? = some owner ∧
        overrider = signature.key owner.name ∧
        program.Runs declaration.name signature owner.name := by
    have has := (hasVirtual_of_dispatch? distinct runs).2
    rcases has.placed with ⟨owner, isOwner, _⟩
    rw [has.placed_in isOwner] at placed
    cases placed
    exact ⟨owner, isOwner, rfl, position, declaration, owner, method, declared, rfl, runs, isOwner,
      rfl⟩
  rcases (mem_overridePairs_iff distinct).mp paired with
    ⟨method, target, ofMethods, rfl, rfl⟩ | ⟨method, ofLibrary, rfl⟩
  · rcases mem_methodPairs_iff.mp ofMethods with ⟨position, inside, arises⟩
    rcases mem_methodPairsAt_iff.mp arises with ⟨signature, runs, has, isSupertype, apart⟩
    have declared := List.getElem?_eq_getElem (List.mem_range.mp inside)
    rcases runsOf declared runs placed with ⟨owner, isOwner, rfl, runsName⟩
    rcases (mem_supertypes_iff inside _).mp isSupertype with ⟨elsewhere, inherits⟩
    rcases inherits.names distinct declared with ⟨upper, upperDeclared, below⟩
    rw [has.placed_in upperDeclared] at otherPlaced
    cases otherPlaced
    refine ⟨_, .method runsName ⟨?_, below⟩
      (declaresVirtual_iff.mpr ⟨target, upper, has, upperDeclared, rfl⟩) ?_⟩
    · exact fun same => elsewhere (class_unique distinct upperDeclared declared same)
    · exact fun same => apart (class_unique distinct isOwner upperDeclared same)
  · rcases mem_libraryPairs_iff.mp ofLibrary with ⟨position, inside, arises⟩
    rcases mem_libraryPairsAt_iff.mp arises with ⟨signature, runs, upper, isSupertype, found⟩
    have declared := List.getElem?_eq_getElem (List.mem_range.mp inside)
    rcases runsOf declared runs placed with ⟨owner, _, rfl, runsName⟩
    rcases ProgramGraph.boundary?_eq_some_iff.mp found with ⟨isBoundary, rfl⟩
    rw [ProgramGraph.names_boundary isBoundary] at otherPlaced
    cases otherPlaced
    rcases (mem_boundaryNames_iff_usesName distinct).mp isBoundary with ⟨uses, undefined⟩
    exact ⟨_, .library runsName ((mem_supertypeNames_iff distinct declared upper).mp isSupertype)
      uses undefined⟩

theorem overrides_iff (distinct : program.symbolNames.Nodup) {overrider overridden : String} :
    program.Overrides overrider overridden ↔
      ∃ receiver, program.OverridesOn receiver overrider overridden :=
  ⟨fun overrides => overrides.exists_receiver distinct,
    fun ⟨_, overrides⟩ => overrides.overrides distinct⟩

end Program

end ClassShrink
