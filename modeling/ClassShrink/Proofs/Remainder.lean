import ClassShrink.Proofs.Retention
import Mathlib.Data.List.Flatten

/-! # What is left of a program

The classes and members that a pass leaves, each with the one in the program
that it was. -/

namespace ClassShrink

open ProgramGraph (ofProgram)

/-! ## Elements -/

namespace Program

variable {program : Program} {reached : List Nat}

theorem mem_remainder_iff (left : ClassDecl) :
    left ∈ (program.remainder reached).classes ↔
      ∃ position declaration, program.classes[position]? = some declaration ∧
        program.classNode position ∈ reached ∧
        left = program.thinned reached declaration position := by
  simp only [remainder, thinnedClasses, reachedClasses, List.mem_map, List.mem_filter, Prod.exists,
    List.mk_mem_zipIdx_iff_getElem?, decide_eq_true_eq]
  constructor
  · intro kept
    rcases kept with ⟨declaration, position, ⟨declared, retained⟩, equal⟩
    exact ⟨position, declaration, declared, retained, equal.symm⟩
  · intro kept
    rcases kept with ⟨position, declaration, declared, retained, equal⟩
    exact ⟨declaration, position, ⟨declared, retained⟩, equal.symm⟩

theorem mem_thinned_iff {declaration : ClassDecl} {position : Nat} (left : Member) :
    left ∈ (program.thinned reached declaration position).members ↔
      ∃ index member, declaration.members[index]? = some member ∧
        program.memberNode ⟨position, index⟩ ∈ reached ∧
        left = { member with annotations := program.liveTags reached member.annotations } := by
  simp only [thinned, reachedMembers, reachedOf, List.map_map, List.mem_map, List.mem_filter,
    Prod.exists, List.mk_mem_zipIdx_iff_getElem?, decide_eq_true_eq]
  constructor
  · intro kept
    rcases kept with ⟨member, index, ⟨has, retained⟩, equal⟩
    exact ⟨index, member, has, retained, equal.symm⟩
  · intro kept
    rcases kept with ⟨index, member, has, retained, equal⟩
    exact ⟨member, index, ⟨has, retained⟩, equal.symm⟩

theorem symbolNames_thinned_sublist {declaration : ClassDecl} {position : Nat} :
    (program.thinned reached declaration position).symbolNames.Sublist declaration.symbolNames := by
  have members : (program.reachedMembers reached declaration position).Sublist
      declaration.members := by
    have kept : (program.reachedMembers reached declaration position).Sublist
        (declaration.members.zipIdx.map Prod.fst) := List.filter_sublist.map Prod.fst
    rwa [List.zipIdx_map_fst] at kept
  have names := members.map (·.qualifiedName declaration.name)
  refine List.Sublist.cons_cons _ ?_
  rw [thinned, List.map_map]
  exact names

theorem symbolNames_remainder_sublist :
    (program.remainder reached).symbolNames.Sublist program.symbolNames := by
  have blocks (classes : List (ClassDecl × Nat)) :
      (classes.flatMap fun entry => (program.thinned reached entry.1 entry.2).symbolNames).Sublist
        (classes.flatMap fun entry => entry.1.symbolNames) :=
    List.Sublist.flatMap_right classes fun _ _ => symbolNames_thinned_sublist
  have kept : (program.reachedClasses reached program.classes.zipIdx).Sublist
      program.classes.zipIdx := List.filter_sublist
  have all : (program.classes.zipIdx.flatMap fun entry => entry.1.symbolNames) =
      program.symbolNames := by
    rw [symbolNames, ← List.zipIdx_map_fst 0 program.classes, List.flatMap_map,
      List.zipIdx_map_fst]
  rw [remainder, symbolNames, thinnedClasses, List.flatMap_map, ← all]
  exact (blocks _).trans (kept.flatMap _)

/-- The names that are left are those of reached symbols, if with every reached member
its class is reached. -/
theorem mem_symbolNames_remainder_iff
    (owners : ∀ position declaration index member,
      program.classes[position]? = some declaration →
      declaration.members[index]? = some member →
      program.memberNode ⟨position, index⟩ ∈ reached →
      program.classNode position ∈ reached) (name : String) :
    name ∈ (program.remainder reached).symbolNames ↔
      ∃ node ∈ reached, program.symbolNames[node]? = some name := by
  constructor
  · intro isLeft
    rcases mem_symbolNames_iff.mp isLeft with ⟨kept, keptLeft, named⟩
    rcases (mem_remainder_iff kept).mp keptLeft with
      ⟨position, declaration, declared, retained, rfl⟩
    rcases named with rfl | ⟨keptMember, memberLeft, rfl⟩
    · have placed := symbolNames_classNode declared
      exact ⟨_, retained, placed⟩
    · rcases (mem_thinned_iff keptMember).mp memberLeft with
        ⟨index, member, has, memberRetained, rfl⟩
      have placed := symbolNames_memberNode declared has
      exact ⟨_, memberRetained, placed⟩
  · rintro ⟨node, retained, placed⟩
    rcases exists_symbol (List.getElem?_eq_some_iff.mp placed).1 with
      ⟨position, declaration, declared, rfl⟩ |
        ⟨position, index, declaration, member, declared, has, rfl⟩
    · cases (symbolNames_classNode declared).symm.trans placed
      have kept := (mem_remainder_iff _).mpr ⟨position, declaration, declared, retained, rfl⟩
      exact mem_symbolNames_iff.mpr ⟨_, kept, .inl rfl⟩
    · cases (symbolNames_memberNode declared has).symm.trans placed
      have ownerRetained := owners position declaration index member declared has retained
      have kept := (mem_remainder_iff _).mpr ⟨position, declaration, declared, ownerRetained, rfl⟩
      have keptMember := (mem_thinned_iff _).mpr ⟨index, member, has, retained, rfl⟩
      exact mem_symbolNames_iff.mpr ⟨_, kept, .inr ⟨_, keptMember, rfl⟩⟩

theorem mem_reached_iff_remainder (distinct : program.symbolNames.Nodup)
    (owners : ∀ position declaration index member,
      program.classes[position]? = some declaration →
      declaration.members[index]? = some member →
      program.memberNode ⟨position, index⟩ ∈ reached →
      program.classNode position ∈ reached) {node : Nat} {name : String}
    (placed : program.symbolNames[node]? = some name) :
    node ∈ reached ↔ name ∈ (program.remainder reached).symbolNames := by
  rw [mem_symbolNames_remainder_iff owners]
  constructor
  · intro retained
    exact ⟨node, retained, placed⟩
  · intro left
    rcases left with ⟨other, retained, otherPlaced⟩
    rw [index_unique distinct placed otherPlaced]
    exact retained

end Program

/-! ## The same in two programs -/

namespace Program

def SameClass (program left : Program) (position leftPosition : Nat) : Prop :=
  ∃ declaration kept, program.classes[position]? = some declaration ∧
    left.classes[leftPosition]? = some kept ∧ kept.name = declaration.name

/-- Members at places in a program and in what is left of it that belong to
classes with one name and differ in nothing but their annotation tags. -/
def SameMember (program left : Program) (place leftPlace : MemberPosition) : Prop :=
  program.SameClass left place.owner leftPlace.owner ∧
    ∃ member kept, program.memberAt? place = some member ∧ left.memberAt? leftPlace = some kept ∧
      { kept with annotations := member.annotations } = member

/-- What is left of a program still has the member at a place, and its class. -/
def Retains (left program : Program) (place : MemberPosition) : Prop :=
  ∃ leftPlace, program.SameMember left place leftPlace

end Program

namespace Cut

variable {program left : Program} {reached : List Nat} (cut : Cut program left reached)
  {position leftPosition index leftIndex : Nat} {declaration kept : ClassDecl} {member : Member}

include cut

/-! ## Classes that are left -/

theorem class_left (declared : program.classes[position]? = some declaration)
    (retained : program.classNode position ∈ reached) :
    ∃ leftPosition : Nat, left.classes[leftPosition]? =
      some (program.thinned reached declaration position) := by
  rw [cut.eq_remainder]
  exact List.mem_iff_getElem?.mp ((Program.mem_remainder_iff _).mpr
    ⟨position, declaration, declared, retained, rfl⟩)

theorem class_original (declared : left.classes[leftPosition]? = some kept) :
    ∃ position declaration, program.classes[position]? = some declaration ∧
      program.classNode position ∈ reached ∧
      kept = program.thinned reached declaration position := by
  have member := List.mem_of_getElem? declared
  rw [cut.eq_remainder] at member
  exact (Program.mem_remainder_iff kept).mp member

theorem original_of_member (classLeft : kept ∈ left.classes) {keptMember : Member}
    (memberLeft : keptMember ∈ kept.members) :
    ∃ position index declaration member, program.classes[position]? = some declaration ∧
      declaration.members[index]? = some member ∧
      program.memberNode ⟨position, index⟩ ∈ reached ∧
      keptMember = { member with
        annotations := program.liveTags reached member.annotations } := by
  rw [cut.eq_remainder] at classLeft
  rcases (Program.mem_remainder_iff kept).mp classLeft with
    ⟨position, declaration, declared, _, rfl⟩
  rcases (Program.mem_thinned_iff keptMember).mp memberLeft with
    ⟨index, member, has, retained, rfl⟩
  exact ⟨position, index, declaration, member, declared, has, retained, rfl⟩

theorem sameClass_iff :
    program.SameClass left position leftPosition ↔
      ∃ declaration, program.classes[position]? = some declaration ∧
        program.classNode position ∈ reached ∧
        left.classes[leftPosition]? =
          some (program.thinned reached declaration position) := by
  constructor
  · intro same
    rcases same with ⟨declaration, kept, declared, leftDeclared, sameName⟩
    rcases cut.class_original leftDeclared with
      ⟨original, other, otherDeclared, retained, rfl⟩
    obtain rfl : original = position :=
      Program.class_unique cut.distinct otherDeclared declared sameName
    obtain rfl : declaration = other := Option.some.inj (declared.symm.trans otherDeclared)
    exact ⟨declaration, declared, retained, leftDeclared⟩
  · intro same
    rcases same with ⟨declaration, declared, _, leftDeclared⟩
    exact ⟨declaration, _, declared, leftDeclared, rfl⟩

theorem symbolNames_sublist : left.symbolNames.Sublist program.symbolNames := by
  rw [cut.eq_remainder]
  exact Program.symbolNames_remainder_sublist

theorem distinct_left : left.symbolNames.Nodup :=
  cut.distinct.sublist cut.symbolNames_sublist

/-! ## Members that are left -/

theorem member_left (same : program.SameClass left position leftPosition)
    (present : program.memberAt? ⟨position, index⟩ = some member)
    (retained : program.memberNode ⟨position, index⟩ ∈ reached) :
    ∃ leftIndex, left.memberAt? ⟨leftPosition, leftIndex⟩ =
      some { member with
        annotations := program.liveTags reached member.annotations } := by
  rcases cut.sameClass_iff.mp same with ⟨declaration, declared, _, leftDeclared⟩
  have has := Program.has_of_memberAt? present declared
  have kept : _ ∈ (program.thinned reached declaration position).members :=
    (Program.mem_thinned_iff _).mpr ⟨index, member, has, retained, rfl⟩
  rcases List.mem_iff_getElem?.mp kept with ⟨leftIndex, leftHas⟩
  exact ⟨leftIndex, Program.memberAt?_eq_some_iff.mpr ⟨_, leftDeclared, leftHas⟩⟩

theorem member_original (same : program.SameClass left position leftPosition)
    {keptMember : Member}
    (present : left.memberAt? ⟨leftPosition, leftIndex⟩ = some keptMember) :
    ∃ index member, program.memberAt? ⟨position, index⟩ = some member ∧
      program.memberNode ⟨position, index⟩ ∈ reached ∧
      keptMember = { member with
        annotations := program.liveTags reached member.annotations } := by
  rcases cut.sameClass_iff.mp same with ⟨declaration, declared, _, leftDeclared⟩
  have leftHas := Program.has_of_memberAt? present leftDeclared
  rcases (Program.mem_thinned_iff keptMember).mp (List.mem_of_getElem? leftHas) with
    ⟨index, member, has, retained, rfl⟩
  exact ⟨index, member, Program.memberAt?_eq_some_iff.mpr ⟨declaration, declared, has⟩,
    retained, rfl⟩

theorem retains_iff {place : MemberPosition} (present : program.memberAt? place = some member) :
    left.Retains program place ↔ program.memberNode place ∈ reached := by
  rcases place with ⟨owner, index⟩
  constructor
  · intro retains
    rcases retains with
      ⟨⟨leftOwner, leftIndex⟩, same, _, kept, samePresent, leftPresent, sameMember⟩
    obtain rfl : member = _ := Option.some.inj (present.symm.trans samePresent)
    rcases cut.member_original same leftPresent with
      ⟨place, original, originalPresent, retained, rfl⟩
    have sameSignature : original.signature = member.signature := by
      rw [← sameMember]
      rfl
    rcases Program.memberAt?_eq_some_iff.mp present with ⟨declaration, declared, has⟩
    have originalHas := Program.has_of_memberAt? originalPresent declared
    obtain rfl : place = index :=
      Program.member_unique cut.distinct declared originalHas has sameSignature
    exact retained
  · intro retained
    rcases Program.memberAt?_eq_some_iff.mp present with ⟨declaration, declared, has⟩
    have ownerRetained := cut.owner_of_member declared has retained
    rcases cut.class_left declared ownerRetained with ⟨leftOwner, leftDeclared⟩
    have same : program.SameClass left owner leftOwner :=
      cut.sameClass_iff.mpr ⟨declaration, declared, ownerRetained, leftDeclared⟩
    rcases cut.member_left same present retained with ⟨leftIndex, leftPresent⟩
    exact ⟨⟨leftOwner, leftIndex⟩, same, member, _, present, leftPresent, rfl⟩

theorem retains_iff_of_dispatch? {signature : Signature} {implementation : MemberPosition}
    (runs : program.dispatch? position signature = some implementation) :
    left.Retains program implementation ↔ program.memberNode implementation ∈ reached := by
  rcases (Program.hasVirtual_of_dispatch? cut.distinct runs).2 with ⟨_, present, _⟩
  exact cut.retains_iff present

end Cut

end ClassShrink
