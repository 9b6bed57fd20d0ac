import ClassShrink.Proofs.BreadthFirst
import ClassShrink.Proofs.MemberSearch

/-! # Which declaration a lookup prefers

A lookup prefers the declarations of the superclass chain, the nearest first, to
those of interfaces, of which it takes one with the fewest links to the chain.
Where it finds none, it asks whether a class that it came by has an external
parent. -/

namespace ClassShrink.Program

variable {program : Program} {owner position lower upper distance : Nat} {signature : Signature}
  {place : MemberPosition} {declaration : ClassDecl}

/-! ## Links -/

def Extends (program : Program) (lower upper : Nat) : Prop :=
  ∃ lowerClass upperClass, program.classes[lower]? = some lowerClass ∧
    program.classes[upper]? = some upperClass ∧ lowerClass.superclass = some upperClass.name

def Implements (program : Program) (lower upper : Nat) : Prop :=
  ∃ lowerClass upperClass, program.classes[lower]? = some lowerClass ∧
    program.classes[upper]? = some upperClass ∧ upperClass.name ∈ lowerClass.interfaces

inductive LinkedIn (link : Nat → Nat → Prop) (first : Nat) : Nat → Nat → Prop
  | same : LinkedIn link first 0 first
  | next {count middle last : Nat} :
      LinkedIn link first count middle → link middle last → LinkedIn link first (count + 1) last

def OnChain (program : Program) (owner position : Nat) : Prop :=
  ∃ count, LinkedIn program.Extends owner count position

/-- A number of interface links, at least one, leads to a class from one of the
superclass chain. -/
def InterfaceIn (program : Program) (owner count position : Nat) : Prop :=
  0 < count ∧ ∃ start, program.OnChain owner start ∧
    LinkedIn program.Implements start count position

/-- A lookup comes by a class: interface links, if any are needed, lead to it from
the superclass chain. -/
def ComesBy (program : Program) (owner position : Nat) : Prop :=
  ∃ start count, program.OnChain owner start ∧ LinkedIn program.Implements start count position

def External (program : Program) (name : String) : Prop :=
  ∀ declaration ∈ program.classes, declaration.name ≠ name

/-- A lookup meets an external name: as the superclass of a class on the chain, or
among the interfaces of a class that it comes by. -/
def Meets (program : Program) (owner : Nat) (name : String) : Prop :=
  program.External name ∧
    ((∃ position declaration, program.OnChain owner position ∧
        program.classes[position]? = some declaration ∧ declaration.superclass = some name) ∨
      ∃ position declaration, program.ComesBy owner position ∧
        program.classes[position]? = some declaration ∧ name ∈ declaration.interfaces)

/-! ## What the walks find -/

theorem mem_superclasses_iff (distinct : program.symbolNames.Nodup) :
    upper ∈ program.superclasses lower ↔ program.Extends lower upper := by
  simp only [superclasses, mem_defined_iff, Option.mem_toList, superclassName?,
    Option.bind_eq_some_iff, position?_eq_some_iff distinct]
  constructor
  · rintro ⟨name, ⟨lowerClass, declared, superclass⟩, upperClass, upperDeclared, rfl⟩
    exact ⟨lowerClass, upperClass, declared, upperDeclared, superclass⟩
  · rintro ⟨lowerClass, upperClass, declared, upperDeclared, superclass⟩
    exact ⟨_, ⟨lowerClass, declared, superclass⟩, upperClass, upperDeclared, rfl⟩

theorem mem_interfaces_iff (distinct : program.symbolNames.Nodup) :
    upper ∈ program.interfaces lower ↔ program.Implements lower upper := by
  simp only [interfaces, mem_defined_iff, position?_eq_some_iff distinct]
  constructor
  · rintro ⟨name, named, upperClass, upperDeclared, rfl⟩
    cases declared : program.classes[lower]? with
    | none => simp [interfaceNames, declared] at named
    | some lowerClass =>
        rw [interfaceNames_eq declared] at named
        exact ⟨lowerClass, upperClass, declared, upperDeclared, named⟩
  · rintro ⟨lowerClass, upperClass, declared, upperDeclared, named⟩
    exact ⟨_, by rwa [interfaceNames_eq declared], upperClass, upperDeclared, rfl⟩

theorem Extends.mem_positions (link : program.Extends lower upper) :
    upper ∈ program.positions := by
  rcases link with ⟨_, _, _, declared, _⟩
  exact mem_positions_of_declared declared

theorem Implements.mem_positions (link : program.Implements lower upper) :
    upper ∈ program.positions := by
  rcases link with ⟨_, _, _, declared, _⟩
  exact mem_positions_of_declared declared

theorem reachesIn_superclasses_iff (distinct : program.symbolNames.Nodup)
    (inside : owner ∈ program.positions) :
    Worklist.ReachesIn program.superclasses program.positions [owner] [] distance position ↔
      LinkedIn program.Extends owner distance position := by
  constructor
  · intro reaches
    induction reaches with
    | near starting _ =>
        rw [List.mem_singleton.mp starting]
        exact .same
    | far starting _ => cases starting
    | step _ successor _ induction =>
        exact induction.next ((mem_superclasses_iff distinct).mp successor)
  · intro linked
    induction linked with
    | same => exact .near (List.mem_singleton_self owner) inside
    | next _ link induction =>
        exact .step induction ((mem_superclasses_iff distinct).mpr link) link.mem_positions

theorem mem_chain_iff_onChain (distinct : program.symbolNames.Nodup)
    (inside : owner ∈ program.positions) :
    position ∈ program.chain owner ↔ program.OnChain owner position := by
  rw [chain, Worklist.mem_explore_iff positions_nodup, ← Worklist.exists_reachesIn_iff]
  exact exists_congr fun _ => reachesIn_superclasses_iff distinct inside

/-- The exploration starts at the interfaces of the chain, so it counts one link less
than lead there from the chain. -/
theorem reachesIn_interfaces_iff (distinct : program.symbolNames.Nodup)
    (inside : owner ∈ program.positions) :
    Worklist.ReachesIn program.interfaces program.positions
        ((program.chain owner).flatMap program.interfaces) [] distance position ↔
      program.InterfaceIn owner (distance + 1) position := by
  constructor
  · intro reaches
    refine ⟨Nat.succ_pos _, ?_⟩
    induction reaches with
    | near starting _ =>
        rcases List.mem_flatMap.mp starting with ⟨start, onChain, interface⟩
        exact ⟨start, (mem_chain_iff_onChain distinct inside).mp onChain,
          LinkedIn.same.next ((mem_interfaces_iff distinct).mp interface)⟩
    | far starting _ => cases starting
    | step _ successor _ induction =>
        rcases induction with ⟨start, onChain, linked⟩
        exact ⟨start, onChain, linked.next ((mem_interfaces_iff distinct).mp successor)⟩
  · rintro ⟨_, start, onChain, linked⟩
    induction distance generalizing position with
    | zero =>
        cases linked with
        | next linked link =>
            cases linked
            refine .near (List.mem_flatMap.mpr ⟨start, ?_, ?_⟩) link.mem_positions
            · exact (mem_chain_iff_onChain distinct inside).mpr onChain
            · exact (mem_interfaces_iff distinct).mpr link
    | succ distance induction =>
        cases linked with
        | next linked link =>
            exact .step (induction (Nat.succ_pos _) linked) ((mem_interfaces_iff distinct).mpr link)
              link.mem_positions

theorem mem_interfaceWalk_iff (distinct : program.symbolNames.Nodup)
    (inside : owner ∈ program.positions) :
    position ∈ program.interfaceWalk (program.chain owner) ↔
      ∃ count, program.InterfaceIn owner count position := by
  rw [interfaceWalk, Worklist.mem_explore_iff positions_nodup, ← Worklist.exists_reachesIn_iff]
  constructor
  · rintro ⟨distance, reaches⟩
    exact ⟨distance + 1, (reachesIn_interfaces_iff distinct inside).mp reaches⟩
  · rintro ⟨count, linked⟩
    obtain ⟨distance, rfl⟩ := Nat.exists_eq_add_one.mpr linked.1
    exact ⟨distance, (reachesIn_interfaces_iff distinct inside).mpr linked⟩

theorem comesBy_iff :
    program.ComesBy owner position ↔
      program.OnChain owner position ∨ ∃ count, program.InterfaceIn owner count position := by
  constructor
  · rintro ⟨start, count, onChain, linked⟩
    cases linked with
    | same => exact .inl onChain
    | next linked link => exact .inr ⟨_, Nat.succ_pos _, start, onChain, linked.next link⟩
  · rintro (onChain | ⟨count, _, start, onChain, linked⟩)
    · exact ⟨position, 0, onChain, .same⟩
    · exact ⟨start, count, onChain, linked⟩

theorem mem_lookupPath_iff (distinct : program.symbolNames.Nodup)
    (inside : owner ∈ program.positions) :
    position ∈ program.lookupPath owner ↔ program.ComesBy owner position := by
  rw [lookupPath, List.mem_append, mem_chain_iff_onChain distinct inside,
    mem_interfaceWalk_iff distinct inside, comesBy_iff]

theorem leavesProgram_iff_meets (distinct : program.symbolNames.Nodup)
    (inside : owner ∈ program.positions) :
    program.leavesProgram (program.chain owner) (program.interfaceWalk (program.chain owner)) ↔
      ∃ name, program.Meets owner name := by
  have superclass (position : Nat) : program.hasExternalSuperclass position ↔
      ∃ name declaration, program.classes[position]? = some declaration ∧
        declaration.superclass = some name ∧ program.External name := by
    simp only [hasExternalSuperclass, List.any_eq_true, Option.mem_toList, superclassName?,
      Option.bind_eq_some_iff, Option.isNone_iff_eq_none, position?_eq_none_iff]
    constructor
    · rintro ⟨name, ⟨declaration, declared, named⟩, external⟩
      exact ⟨name, declaration, declared, named, external⟩
    · rintro ⟨name, declaration, declared, named, external⟩
      exact ⟨name, ⟨declaration, declared, named⟩, external⟩
  have interface (position : Nat) : program.hasExternalInterface position ↔
      ∃ name declaration, program.classes[position]? = some declaration ∧
        name ∈ declaration.interfaces ∧ program.External name := by
    simp only [hasExternalInterface, List.any_eq_true, Option.isNone_iff_eq_none,
      position?_eq_none_iff]
    constructor
    · rintro ⟨name, named, external⟩
      cases declared : program.classes[position]? with
      | none => simp [interfaceNames, declared] at named
      | some declaration =>
          rw [interfaceNames_eq declared] at named
          exact ⟨name, declaration, rfl, named, external⟩
    · rintro ⟨name, declaration, declared, named, external⟩
      exact ⟨name, by rwa [interfaceNames_eq declared], external⟩
  rw [leavesProgram_eq_any, Bool.or_eq_true, List.any_eq_true, List.any_eq_true]
  constructor
  · rintro (⟨position, onChain, external⟩ | ⟨position, onPath, external⟩)
    · rcases (superclass position).mp external with ⟨name, declaration, declared, named, external⟩
      exact ⟨name, external, .inl ⟨position, declaration,
        (mem_chain_iff_onChain distinct inside).mp onChain, declared, named⟩⟩
    · rcases (interface position).mp external with ⟨name, declaration, declared, named, external⟩
      exact ⟨name, external, .inr ⟨position, declaration,
        (mem_lookupPath_iff distinct inside).mp onPath, declared, named⟩⟩
  · rintro ⟨name, external, ⟨position, declaration, onChain, declared, named⟩ |
      ⟨position, declaration, comesBy, declared, named⟩⟩
    · exact .inl ⟨position, (mem_chain_iff_onChain distinct inside).mpr onChain,
        (superclass position).mpr ⟨name, declaration, declared, named, external⟩⟩
    · exact .inr ⟨position, (mem_lookupPath_iff distinct inside).mpr comesBy,
        (interface position).mpr ⟨name, declaration, declared, named, external⟩⟩

/-! ## Declarations -/

def Declares (program : Program) (signature : Signature) (place : MemberPosition) : Prop :=
  ∃ member, program.memberAt? place = some member ∧ member.signature = signature

theorem isSome_declared?_iff (distinct : program.symbolNames.Nodup) :
    (program.declared? signature position).isSome ↔
      ∃ place, program.Declares signature place ∧ place.owner = position := by
  rw [Option.isSome_iff_exists]
  exact exists_congr fun place => (declared?_eq_some_iff distinct).trans and_comm

theorem findSome?_declared?_eq_none_iff (distinct : program.symbolNames.Nodup)
    {positions : List Nat} :
    positions.findSome? (program.declared? signature) = none ↔
      ∀ place, program.Declares signature place → place.owner ∉ positions := by
  rw [List.findSome?_eq_none_iff]
  constructor
  · intro unfound place declares member
    have declared := (isSome_declared?_iff distinct).mpr ⟨place, declares, rfl⟩
    rw [unfound place.owner member] at declared
    cases declared
  · intro undeclared position member
    rw [← Option.not_isSome_iff_eq_none, isSome_declared?_iff distinct]
    rintro ⟨place, declares, rfl⟩
    exact undeclared place declares member

/-- A signature is declared at a place on a class at some distance, and on none
that is nearer. -/
def DeclaredNearest (program : Program) (signature : Signature)
    (isAt : Nat → Nat → Prop) (place : MemberPosition) : Prop :=
  program.Declares signature place ∧ ∃ distance, isAt distance place.owner ∧
    ∀ other farther, program.Declares signature other → isAt farther other.owner →
      distance ≤ farther

theorem declaredNearest_of_explore (distinct : program.symbolNames.Nodup)
    {successors : Nat → List Nat} {starts : List Nat} {isAt : Nat → Nat → Prop} (offset : Nat)
    (distances : ∀ distance position, isAt distance position ↔
      ∃ count, distance = count + offset ∧
        Worklist.ReachesIn successors program.positions starts [] count position)
    (found : (Worklist.explore .breadthFirst successors program.positions starts).findSome?
      (program.declared? signature) = some place) :
    program.DeclaredNearest signature isAt place := by
  rcases Worklist.exists_nearest_of_findSome? positions_nodup found with
    ⟨position, count, finds, reaches, nearest⟩
  rcases (declared?_eq_some_iff distinct).mp finds with ⟨rfl, declares⟩
  refine ⟨declares, count + offset, (distances _ _).mpr ⟨count, rfl, reaches⟩, ?_⟩
  intro other farther declaresOther isAtOther
  rcases (distances _ _).mp isAtOther with ⟨otherCount, rfl, reachesOther⟩
  exact Nat.add_le_add_right (nearest other.owner otherCount reachesOther
    ((isSome_declared?_iff distinct).mpr ⟨other, declaresOther, rfl⟩)) offset

theorem declaredNearest_of_chain (distinct : program.symbolNames.Nodup)
    (inside : owner ∈ program.positions)
    (found : (program.chain owner).findSome? (program.declared? signature) = some place) :
    program.DeclaredNearest signature (LinkedIn program.Extends owner) place := by
  apply declaredNearest_of_explore distinct 0 _ found
  intro distance position
  simp [reachesIn_superclasses_iff distinct inside]

theorem declaredNearest_of_interfaceWalk (distinct : program.symbolNames.Nodup)
    (inside : owner ∈ program.positions)
    (found : (program.interfaceWalk (program.chain owner)).findSome?
      (program.declared? signature) = some place) :
    program.DeclaredNearest signature (program.InterfaceIn owner) place := by
  apply declaredNearest_of_explore distinct 1 _ found
  intro distance position
  simp only [reachesIn_interfaces_iff distinct inside]
  constructor
  · intro linked
    obtain ⟨count, rfl⟩ := Nat.exists_eq_add_one.mpr linked.1
    exact ⟨count, rfl, linked⟩
  · rintro ⟨count, rfl, linked⟩
    exact linked

/-! ## Answers -/

/-- The search for a member ends on every hierarchy, and its answer is that of the
lookup: the nearest declaration on the superclass chain; if there is none, a
declaration with the fewest interface links to the chain; and if there is none
either, whether an external name was met. -/
theorem lookup_prefers_nearest (program : Program) (distinct : program.symbolNames.Nodup)
    (owner : Nat) (ownerClass : ClassDecl) (declared : program.classes[owner]? = some ownerClass)
    (signature : Signature) :
    program.SearchEnds signature (.climbing (some owner) [] false)
      (program.lookup owner signature) ∧
    ((∃ place, program.Declares signature place ∧ program.OnChain owner place.owner) →
      ∃ place, program.lookup owner signature = .found place ∧
        program.DeclaredNearest signature (LinkedIn program.Extends owner) place) ∧
    ((¬∃ place, program.Declares signature place ∧ program.OnChain owner place.owner) →
      ((∃ place count, program.Declares signature place ∧
          program.InterfaceIn owner count place.owner) →
        ∃ place, program.lookup owner signature = .found place ∧
          program.DeclaredNearest signature (program.InterfaceIn owner) place) ∧
      ((¬∃ place count, program.Declares signature place ∧
          program.InterfaceIn owner count place.owner) →
        ((∃ name, program.Meets owner name) →
          program.lookup owner signature = .maybeInherited) ∧
        ((¬∃ name, program.Meets owner name) →
          program.lookup owner signature = .missing))) := by
  have inside := mem_positions_of_declared declared
  refine ⟨lookup_searchEnds inside signature, ?_, fun notOnChain => ?_⟩
  · rintro ⟨place, declares, onChain⟩
    cases found : (program.chain owner).findSome? (program.declared? signature) with
    | none =>
        exact absurd ((mem_chain_iff_onChain distinct inside).mpr onChain)
          ((findSome?_declared?_eq_none_iff distinct).mp found place declares)
    | some nearest =>
        refine ⟨nearest, ?_, declaredNearest_of_chain distinct inside found⟩
        rw [lookup_eq_verdict, lookupPath, List.findSome?_append, found]
        rfl
  · have unfound : (program.chain owner).findSome? (program.declared? signature) = none :=
      (findSome?_declared?_eq_none_iff distinct).mpr fun place declares member =>
        notOnChain ⟨place, declares, (mem_chain_iff_onChain distinct inside).mp member⟩
    have answer : program.lookup owner signature = _ := lookup_eq_verdict owner signature
    rw [lookupPath, List.findSome?_append, unfound, Option.none_or] at answer
    refine ⟨?_, fun notOnInterface => ?_⟩
    · rintro ⟨place, count, declares, linked⟩
      cases found : (program.interfaceWalk (program.chain owner)).findSome?
          (program.declared? signature) with
      | none =>
          exact absurd ((mem_interfaceWalk_iff distinct inside).mpr ⟨count, linked⟩)
            ((findSome?_declared?_eq_none_iff distinct).mp found place declares)
      | some nearest =>
          refine ⟨nearest, ?_, declaredNearest_of_interfaceWalk distinct inside found⟩
          rw [answer, found]
          rfl
    · have unfoundThere : (program.interfaceWalk (program.chain owner)).findSome?
          (program.declared? signature) = none :=
        (findSome?_declared?_eq_none_iff distinct).mpr fun place declares member => by
          rcases (mem_interfaceWalk_iff distinct inside).mp member with ⟨count, linked⟩
          exact notOnInterface ⟨place, count, declares, linked⟩
      rw [answer, unfoundThere, Lookup.verdict, ← leavesProgram_iff_meets distinct inside]
      exact ⟨fun leaves => if_pos leaves, fun stays => if_neg stays⟩

end ClassShrink.Program

namespace ClassShrink.CrossedChain

/-! Two classes that are each other's superclass. An interface of the second
declares a method; an interface of the first has it from an interface of its own. -/

def run : Signature :=
  ⟨"run", "()"⟩

def program : Program :=
  ⟨[{ name := "Left", superclass := some "Right", interfaces := ["Relay"] },
    { name := "Right", superclass := some "Left", interfaces := ["Task"] },
    { name := "Relay", interfaces := ["Base"] },
    { name := "Base", members := [{ kind := .method, name := "run", descriptor := "()" }] },
    { name := "Task", members := [{ kind := .method, name := "run", descriptor := "()" }] }]⟩

/-- Of the two declarations, the one with fewer interface links is found, although
the way to it goes once around the chain. -/
theorem nearer_interface_found :
    program.symbolNames.Nodup ∧
    program.classes[0]? =
      some { name := "Left", superclass := some "Right", interfaces := ["Relay"] } ∧
    program.lookup 0 run = .found ⟨4, 0⟩ ∧
    program.DeclaredNearest run (program.InterfaceIn 0) ⟨4, 0⟩ := by
  have distinct : program.symbolNames.Nodup := by decide +kernel
  have declared : program.classes[0]? =
      some { name := "Left", superclass := some "Right", interfaces := ["Relay"] } := rfl
  have inside := Program.mem_positions_of_declared declared
  have answer : program.lookup 0 run = .found ⟨4, 0⟩ := by decide +kernel
  have unfound : (program.chain 0).findSome? (program.declared? run) = none := by decide +kernel
  have onWalk : 4 ∈ program.interfaceWalk (program.chain 0) := by decide +kernel
  rcases (Program.mem_interfaceWalk_iff distinct inside).mp onWalk with ⟨count, linked⟩
  rcases ((program.lookup_prefers_nearest distinct 0 _ declared run).2.2 fun onChain => by
      rcases onChain with ⟨place, declares, onChain⟩
      exact (Program.findSome?_declared?_eq_none_iff distinct).mp unfound place declares
        ((Program.mem_chain_iff_onChain distinct inside).mpr onChain)).1
    ⟨⟨4, 0⟩, count, ⟨_, rfl, rfl⟩, linked⟩ with ⟨place, found, nearest⟩
  obtain rfl : ⟨4, 0⟩ = place := Lookup.found.inj (answer.symm.trans found)
  exact ⟨distinct, declared, answer, nearest⟩

end ClassShrink.CrossedChain
