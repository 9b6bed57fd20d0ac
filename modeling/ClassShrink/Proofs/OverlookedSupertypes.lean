import ClassShrink.Proofs.Graph
import ClassShrink.Proofs.Precedence

/-! # What a lookup overlooks

A lookup decides by the classes it comes by: those of the superclass chain, and
those that interface links lead to from there. These are supertypes, but not all
of them: the superclass of an interface is overlooked, with all that it declares
and all that is external above it. A reference may thus be rejected although a
supertype declares the member or an external supertype might. Where no interface
has a superclass of its own, a lookup decides by all supertypes. -/

namespace ClassShrink

namespace Program

variable {program : Program} {owner position : Nat} {signature : Signature} {name : String}

/-! ## Answers by the classes of the walk -/

def DeclaredOnWalk (program : Program) (owner : Nat) (signature : Signature) : Prop :=
  ∃ place, program.Declares signature place ∧ program.ComesBy owner place.owner

theorem findSome?_lookupPath_eq_none_iff (distinct : program.symbolNames.Nodup)
    (inside : owner ∈ program.positions) :
    (program.lookupPath owner).findSome? (program.declared? signature) = none ↔
      ¬program.DeclaredOnWalk owner signature := by
  simp only [findSome?_declared?_eq_none_iff distinct, mem_lookupPath_iff distinct inside,
    DeclaredOnWalk, not_exists, not_and]

theorem lookup_cases (distinct : program.symbolNames.Nodup) (inside : owner ∈ program.positions)
    (signature : Signature) :
    (program.DeclaredOnWalk owner signature ∧
      ∃ place, program.lookup owner signature = .found place) ∨
    (¬program.DeclaredOnWalk owner signature ∧ (∃ name, program.Meets owner name) ∧
      program.lookup owner signature = .maybeInherited) ∨
    (¬program.DeclaredOnWalk owner signature ∧ (¬∃ name, program.Meets owner name) ∧
      program.lookup owner signature = .missing) := by
  rw [lookup_eq_verdict, ← leavesProgram_iff_meets distinct inside]
  cases found : (program.lookupPath owner).findSome? (program.declared? signature) with
  | some place =>
      refine .inl ⟨?_, place, rfl⟩
      by_contra undeclared
      rw [(findSome?_lookupPath_eq_none_iff distinct inside).mpr undeclared] at found
      cases found
  | none =>
      have undeclared := (findSome?_lookupPath_eq_none_iff distinct inside).mp found
      by_cases leaves : program.leavesProgram (program.chain owner)
          (program.interfaceWalk (program.chain owner))
      · exact .inr (.inl ⟨undeclared, leaves, if_pos leaves⟩)
      · exact .inr (.inr ⟨undeclared, leaves, if_neg leaves⟩)

theorem exists_lookup_eq_found_iff (distinct : program.symbolNames.Nodup)
    (inside : owner ∈ program.positions) :
    (∃ place, program.lookup owner signature = .found place) ↔
      program.DeclaredOnWalk owner signature := by
  rcases lookup_cases distinct inside signature with
    ⟨onWalk, answer⟩ | ⟨undeclared, _, answer⟩ | ⟨undeclared, _, answer⟩
  · exact iff_of_true answer onWalk
  · simp [answer, undeclared]
  · simp [answer, undeclared]

theorem lookup_eq_missing_iff (distinct : program.symbolNames.Nodup)
    (inside : owner ∈ program.positions) :
    program.lookup owner signature = .missing ↔
      ¬program.DeclaredOnWalk owner signature ∧ ¬∃ name, program.Meets owner name := by
  rcases lookup_cases distinct inside signature with
    ⟨onWalk, _, answer⟩ | ⟨_, meets, answer⟩ | ⟨undeclared, meets, answer⟩
  · simp [answer, onWalk]
  · simp [answer, meets]
  · exact iff_of_true answer ⟨undeclared, meets⟩

theorem lookup_eq_maybeInherited_iff (distinct : program.symbolNames.Nodup)
    (inside : owner ∈ program.positions) :
    program.lookup owner signature = .maybeInherited ↔
      ¬program.DeclaredOnWalk owner signature ∧ ∃ name, program.Meets owner name := by
  rcases lookup_cases distinct inside signature with
    ⟨onWalk, _, answer⟩ | ⟨undeclared, meets, answer⟩ | ⟨_, meets, answer⟩
  · simp [answer, onWalk]
  · exact iff_of_true answer ⟨undeclared, meets⟩
  · simp [answer, meets]

/-! ## The walk within the hierarchy -/

theorem ComesBy.inherits (distinct : program.symbolNames.Nodup)
    (inside : owner ∈ program.positions) (comesBy : program.ComesBy owner position) :
    program.Inherits owner position :=
  inherits_of_mem_lookupPath inside ((mem_lookupPath_iff distinct inside).mpr comesBy)

theorem OnChain.comesBy (onChain : program.OnChain owner position) :
    program.ComesBy owner position :=
  ⟨position, 0, onChain, .same⟩

theorem mem_externalSupertypes_iff (inside : owner ∈ program.positions) :
    name ∈ program.externalSupertypes owner ↔
      program.External name ∧ ∃ position declaration, program.Inherits owner position ∧
        program.classes[position]? = some declaration ∧
        (declaration.superclass = some name ∨ name ∈ declaration.interfaces) := by
  have above (position : Nat) : position ∈ owner :: program.supertypes owner ↔
      program.Inherits owner position := by
    constructor
    · intro member
      rcases List.mem_cons.mp member with rfl | isSupertype
      · exact .refl
      · exact ((mem_supertypes_iff inside position).mp isSupertype).2
    · intro inherits
      exact List.mem_cons.mpr (inherits.eq_or_mem_supertypes inside)
  simp only [externalSupertypes, undefinedNames, List.mem_filter, List.mem_flatMap, above,
    Option.isNone_iff_eq_none, position?_eq_none_iff]
  constructor
  · rintro ⟨⟨position, inherits, named⟩, external⟩
    cases declared : program.classes[position]? with
    | none => simp [parentNames, superclassName?, interfaceNames, declared] at named
    | some declaration =>
        exact ⟨external, position, declaration, inherits, declared,
          (mem_parentNames_iff declared name).mp named⟩
  · rintro ⟨external, position, declaration, inherits, declared, parent⟩
    exact ⟨⟨position, inherits, (mem_parentNames_iff declared name).mpr parent⟩, external⟩

theorem Meets.mem_externalSupertypes (distinct : program.symbolNames.Nodup)
    (inside : owner ∈ program.positions) (meets : program.Meets owner name) :
    name ∈ program.externalSupertypes owner := by
  rcases meets with ⟨external, ⟨position, declaration, onChain, declared, superclass⟩ |
    ⟨position, declaration, comesBy, declared, interface⟩⟩
  · exact (mem_externalSupertypes_iff inside).mpr ⟨external, position, declaration,
      onChain.comesBy.inherits distinct inside, declared, .inl superclass⟩
  · exact (mem_externalSupertypes_iff inside).mpr ⟨external, position, declaration,
      comesBy.inherits distinct inside, declared, .inr interface⟩

/-! ## Walks that overlook nothing -/

/-- The superclass of every interface that the lookup comes by is a class that it
comes by as well, or an external name that it meets elsewhere. -/
def OverlooksNothing (program : Program) (owner : Nat) : Prop :=
  ∀ position count declaration name, program.InterfaceIn owner count position →
    program.classes[position]? = some declaration → declaration.superclass = some name →
    program.Meets owner name ∨ ∃ upper upperClass, program.ComesBy owner upper ∧
      program.classes[upper]? = some upperClass ∧ upperClass.name = name

theorem parents_eq_append (position : Nat) :
    program.parents position = program.superclasses position ++ program.interfaces position :=
  List.filterMap_append

theorem OverlooksNothing.comesBy (overlooksNothing : program.OverlooksNothing owner)
    (distinct : program.symbolNames.Nodup) (inherits : program.Inherits owner position) :
    program.ComesBy owner position := by
  induction inherits with
  | refl => exact OnChain.comesBy ⟨0, .same⟩
  | @tail lower upper _ parent induction =>
      rw [parents_eq_append, List.mem_append, mem_superclasses_iff distinct,
        mem_interfaces_iff distinct] at parent
      rcases parent with superclass | interface
      · -- Only the superclass of an interface could be missed.
        rcases comesBy_iff.mp induction with ⟨count, linked⟩ | ⟨count, linked⟩
        · exact OnChain.comesBy ⟨count + 1, linked.next superclass⟩
        · rcases superclass with ⟨lowerClass, upperClass, declared, upperDeclared, named⟩
          rcases overlooksNothing lower count lowerClass _ linked declared named with
            ⟨external, _⟩ | ⟨other, otherClass, comesBy, otherDeclared, sameName⟩
          · exact absurd rfl (external upperClass (List.mem_of_getElem? upperDeclared))
          · rw [class_unique distinct upperDeclared otherDeclared sameName.symm]
            exact comesBy
      · rcases induction with ⟨start, count, onChain, linked⟩
        exact ⟨start, count + 1, onChain, linked.next interface⟩

theorem OverlooksNothing.meets (overlooksNothing : program.OverlooksNothing owner)
    (distinct : program.symbolNames.Nodup) (inside : owner ∈ program.positions)
    (isExternal : name ∈ program.externalSupertypes owner) : program.Meets owner name := by
  rcases (mem_externalSupertypes_iff inside).mp isExternal with
    ⟨external, position, declaration, inherits, declared, parent⟩
  have comesBy := overlooksNothing.comesBy distinct inherits
  rcases parent with superclass | interface
  · rcases comesBy_iff.mp comesBy with onChain | ⟨count, linked⟩
    · exact ⟨external, .inl ⟨position, declaration, onChain, declared, superclass⟩⟩
    · rcases overlooksNothing position count declaration name linked declared superclass with
        meets | ⟨_, upperClass, _, upperDeclared, named⟩
      · exact meets
      · exact absurd named (external upperClass (List.mem_of_getElem? upperDeclared))
  · exact ⟨external, .inr ⟨position, declaration, comesBy, declared, interface⟩⟩

/-! ## Answers by all supertypes -/

def DeclaredAbove (program : Program) (owner : Nat) (signature : Signature) : Prop :=
  ∃ place, program.Declares signature place ∧
    (place.owner = owner ∨ place.owner ∈ program.supertypes owner)

theorem declaredAbove_iff_onWalk (overlooksNothing : program.OverlooksNothing owner)
    (distinct : program.symbolNames.Nodup) (inside : owner ∈ program.positions) :
    program.DeclaredAbove owner signature ↔ program.DeclaredOnWalk owner signature := by
  refine exists_congr fun place => and_congr_right fun _ => ⟨?_, ?_⟩
  · rintro (own | isSupertype)
    · rw [own]
      exact OnChain.comesBy ⟨0, .same⟩
    · exact overlooksNothing.comesBy distinct ((mem_supertypes_iff inside _).mp isSupertype).2
  · intro comesBy
    exact (comesBy.inherits distinct inside).eq_or_mem_supertypes inside

theorem externalSupertypes_eq_nil_iff (overlooksNothing : program.OverlooksNothing owner)
    (distinct : program.symbolNames.Nodup) (inside : owner ∈ program.positions) :
    program.externalSupertypes owner = [] ↔ ¬∃ name, program.Meets owner name := by
  rw [List.eq_nil_iff_forall_not_mem, not_exists]
  exact forall_congr' fun name => not_congr ⟨overlooksNothing.meets distinct inside,
    Meets.mem_externalSupertypes distinct inside⟩

/-- Only the answer of the lookup decides whether a graph of the program resolves a
reference. -/
theorem referenceTarget_answers {reference : Reference} {graph : ProgramGraph}
    (same : graph.program = program) (asks : reference.signature? = some signature)
    (found : program.position? reference.owner = some owner) (source : String) :
    (graph.referenceTarget source reference =
        .error (.unresolvedMember source reference.qualifiedName) ↔
      program.lookup owner signature = .missing) ∧
    ((∃ target, graph.referenceTarget source reference = .ok target) ↔
      program.lookup owner signature ≠ .missing) := by
  subst same
  cases answer : graph.program.lookup owner signature <;>
    simp [ProgramGraph.referenceTarget, asks, found, answer]

/-- A lookup answers by the classes it comes by and the external names it meets:
something is found exactly if one of these classes declares it, and a reference is
rejected exactly if none does and no external name is met. All these classes and
names are supertypes. If no superclass of an interface is overlooked, the answer is
that of the whole hierarchy: the reference is rejected exactly if neither the class
nor any supertype declares the member and no supertype is external. -/
theorem lookup_decides_by_walk (program : Program) (distinct : program.symbolNames.Nodup)
    (reference : Reference) (signature : Signature) (owner : Nat)
    (asks : reference.signature? = some signature)
    (found : program.position? reference.owner = some owner) :
    ((∃ place, program.lookup owner signature = .found place) ↔
      program.DeclaredOnWalk owner signature) ∧
    (program.lookup owner signature = .missing ↔
      ¬program.DeclaredOnWalk owner signature ∧ ¬∃ name, program.Meets owner name) ∧
    (program.lookup owner signature = .maybeInherited ↔
      ¬program.DeclaredOnWalk owner signature ∧ ∃ name, program.Meets owner name) ∧
    (∀ graph : ProgramGraph, graph.program = program → ∀ source,
      (graph.referenceTarget source reference =
          .error (.unresolvedMember source reference.qualifiedName) ↔
        program.lookup owner signature = .missing) ∧
      ((∃ target, graph.referenceTarget source reference = .ok target) ↔
        program.lookup owner signature ≠ .missing)) ∧
    (∀ position, program.ComesBy owner position →
      position = owner ∨ position ∈ program.supertypes owner) ∧
    (∀ name, program.Meets owner name → name ∈ program.externalSupertypes owner) ∧
    (program.OverlooksNothing owner →
      ((∃ place, program.lookup owner signature = .found place) ↔
        program.DeclaredAbove owner signature) ∧
      (program.lookup owner signature = .missing ↔
        ¬program.DeclaredAbove owner signature ∧ program.externalSupertypes owner = []) ∧
      (program.lookup owner signature = .maybeInherited ↔
        ¬program.DeclaredAbove owner signature ∧ program.externalSupertypes owner ≠ [])) := by
  have inside := mem_positions_of_position? found
  refine ⟨exists_lookup_eq_found_iff distinct inside, lookup_eq_missing_iff distinct inside,
    lookup_eq_maybeInherited_iff distinct inside,
    fun graph same => referenceTarget_answers same asks found,
    fun position comesBy => (comesBy.inherits distinct inside).eq_or_mem_supertypes inside,
    fun name => Meets.mem_externalSupertypes distinct inside, fun overlooksNothing => ?_⟩
  rw [declaredAbove_iff_onWalk overlooksNothing distinct inside, Ne,
    externalSupertypes_eq_nil_iff overlooksNothing distinct inside, not_not]
  exact ⟨exists_lookup_eq_found_iff distinct inside, lookup_eq_missing_iff distinct inside,
    lookup_eq_maybeInherited_iff distinct inside⟩

end Program

namespace InterfaceSuperclass

/-! A class whose interface has a superclass. That declares a method, and has an
external superclass of its own. -/

def callRun : Reference :=
  { owner := "Job", name := some "run", descriptor := some "()" }

def callStop : Reference :=
  { owner := "Job", name := some "stop", descriptor := some "()" }

def program : Program :=
  ⟨[{ name := "Job", interfaces := ["Task"] },
    { name := "Task", superclass := some "Base" },
    { name := "Base", superclass := some "Library"
      members := [{ kind := .method, name := "run", descriptor := "()" }] },
    { name := "Main"
      members :=
        [{ kind := .method, name := "main", descriptor := "()", isStatic := true
           references := [callRun, callStop] }] }]⟩

/-- One member is declared on a supertype, the other might be inherited from an
external one, and both references are rejected. -/
theorem references_rejected :
    program.symbolNames.Nodup ∧ program.externalSupertypes 0 = ["Library"] ∧
    program.DeclaredAbove 0 ⟨"run", "()"⟩ ∧ program.lookup 0 ⟨"run", "()"⟩ = .missing ∧
    program.lookup 0 ⟨"stop", "()"⟩ = .missing ∧
    (∃ graph, ProgramGraph.layOut program = .ok graph ∧ ∀ source,
      graph.referenceTarget source callRun = .error (.unresolvedMember source "Job.run:()") ∧
      graph.referenceTarget source callStop = .error (.unresolvedMember source "Job.stop:()")) ∧
    ProgramGraph.build program = .error (.unresolvedMember "Main.main:()" "Job.run:()") ∧
    ¬program.OverlooksNothing 0 := by
  have distinct : program.symbolNames.Nodup := by decide +kernel
  have runMissing : program.lookup 0 ⟨"run", "()"⟩ = .missing := by decide +kernel
  have stopMissing : program.lookup 0 ⟨"stop", "()"⟩ = .missing := by decide +kernel
  have declaredAbove : program.DeclaredAbove 0 ⟨"run", "()"⟩ :=
    ⟨⟨2, 0⟩, ⟨_, rfl, rfl⟩, .inr (by decide +kernel)⟩
  have ofRun := program.lookup_decides_by_walk distinct callRun ⟨"run", "()"⟩ 0 rfl
    (by decide +kernel)
  have ofStop := program.lookup_decides_by_walk distinct callStop ⟨"stop", "()"⟩ 0 rfl
    (by decide +kernel)
  have laidOut : ProgramGraph.layOut program = .ok (ProgramGraph.laidOut program) := by
    decide +kernel
  refine ⟨distinct, by decide +kernel, declaredAbove, runMissing, stopMissing,
    ⟨_, laidOut, fun source => ?_⟩, by decide +kernel, ?_⟩
  · exact ⟨(ofRun.2.2.2.1 _ rfl source).1.mpr runMissing,
      (ofStop.2.2.2.1 _ rfl source).1.mpr stopMissing⟩
  · intro overlooksNothing
    exact ((ofRun.2.2.2.2.2.2 overlooksNothing).2.1.mp runMissing).1 declaredAbove

end InterfaceSuperclass

end ClassShrink
