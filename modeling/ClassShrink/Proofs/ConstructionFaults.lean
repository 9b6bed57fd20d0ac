import ClassShrink.Proofs.Graph
import Mathlib.Data.List.NodupEquivFin

/-! # When a graph cannot be built

Construction fails in two cases only: on the first symbol whose name a symbol before
it has, wherever in the program, and, if there is none, on a reference that asks a
class of the program for a member that it cannot have. If the classes are resolved in
turn, that is the first such reference of the program; workers may report the first
one of any class. -/

namespace ClassShrink

open ProgramGraph (ofProgram)

namespace Program

variable {program : Program} {name source target : String}

/-! ## Names that occur twice -/

def FirstRepeated (program : Program) (name : String) : Prop :=
  ∃ before after, program.symbolNames = before ++ name :: after ∧ name ∈ before ∧ before.Nodup

def ClassNamed (program : Program) (position : Nat) (name : String) : Prop :=
  ∃ declaration, program.classes[position]? = some declaration ∧ declaration.name = name

def MemberNamed (program : Program) (place : MemberPosition) (name : String) : Prop :=
  ∃ declaration member, program.classes[place.owner]? = some declaration ∧
    declaration.members[place.index]? = some member ∧
      member.qualifiedName declaration.name = name

/-- Two symbols have one name: two classes, two members of one class or of different
ones, or a class and a member. -/
inductive Clash (program : Program) (name : String) : Prop
  | classes {left right : Nat} : left ≠ right →
      program.ClassNamed left name → program.ClassNamed right name → Clash program name
  | members {left right : MemberPosition} : left ≠ right →
      program.MemberNamed left name → program.MemberNamed right name → Clash program name
  | classAndMember {position : Nat} {place : MemberPosition} :
      program.ClassNamed position name → program.MemberNamed place name → Clash program name

theorem firstRepeat?_eq_some_iff (seen names : List String) :
    firstRepeat? seen names = some name ↔
      ∃ before after, names = before ++ name :: after ∧ (name ∈ seen ∨ name ∈ before) ∧
        before.Nodup ∧ ∀ other ∈ before, other ∉ seen := by
  induction names generalizing seen with
  | nil => simp [firstRepeat?]
  | cons head rest induction =>
      by_cases repeated : head ∈ seen
      · rw [firstRepeat?, if_pos repeated, Option.some.injEq]
        constructor
        · intro equal
          subst equal
          exact ⟨[], rest, rfl, .inl repeated, List.nodup_nil, by simp⟩
        · intro split
          rcases split with ⟨before, after, split, _, _, fresh⟩
          cases before with
          | nil => exact (List.cons.inj split).1
          | cons first before =>
              cases (List.cons.inj split).1
              exact absurd repeated (fresh head List.mem_cons_self)
      · rw [firstRepeat?, if_neg repeated, induction]
        constructor
        · intro split
          rcases split with ⟨before, after, rfl, occurs, distinct, fresh⟩
          refine ⟨head :: before, after, rfl, ?_, ?_, ?_⟩
          · simpa [or_assoc, or_left_comm] using occurs
          · refine List.nodup_cons.mpr ⟨fun again => ?_, distinct⟩
            exact fresh head again List.mem_cons_self
          · intro other listed
            rcases List.mem_cons.mp listed with rfl | later
            · exact repeated
            · exact fun before => fresh other later (List.mem_cons_of_mem _ before)
        · intro split
          rcases split with ⟨before, after, split, occurs, distinct, fresh⟩
          cases before with
          | nil =>
              cases (List.cons.inj split).1
              simp [repeated] at occurs
          | cons first before =>
              rcases List.cons.inj split with ⟨rfl, rfl⟩
              rcases List.nodup_cons.mp distinct with ⟨once, distinct⟩
              refine ⟨before, after, rfl, ?_, distinct, ?_⟩
              · simpa [or_assoc, or_left_comm] using occurs
              · intro other listed
                have unseen := fresh other (List.mem_cons_of_mem _ listed)
                have different : other ≠ head := fun equal => once (equal ▸ listed)
                simp [different, unseen]

theorem firstRepeat?_nil_eq_some_iff :
    firstRepeat? [] program.symbolNames = some name ↔ program.FirstRepeated name := by
  rw [firstRepeat?_eq_some_iff, FirstRepeated]
  simp

/-! A repeated name stands at two numbers. A number belongs to one class or to one
member, so these are two symbols. -/

section Places

variable {position : Nat} {place : MemberPosition}

theorem ClassNamed.number (named : program.ClassNamed position name) :
    program.symbolNames[program.classNode position]? = some name := by
  rcases named with ⟨declaration, declared, rfl⟩
  exact symbolNames_classNode declared

theorem ClassNamed.origin (named : program.ClassNamed position name) :
    ((ofProgram program).node (program.classNode position)).origin = .declaration position := by
  rcases named with ⟨declaration, declared, rfl⟩
  rw [ProgramGraph.node_classNode declared]

theorem MemberNamed.number (named : program.MemberNamed place name) :
    program.symbolNames[program.memberNode place]? = some name := by
  rcases named with ⟨declaration, member, declared, has, rfl⟩
  exact symbolNames_memberNode declared has

theorem MemberNamed.origin (named : program.MemberNamed place name) :
    ((ofProgram program).node (program.memberNode place)).origin =
      .member place.owner place.index := by
  rcases named with ⟨declaration, member, declared, has, rfl⟩
  rw [ProgramGraph.node_memberNode declared has]

theorem classNamed_or_memberNamed {number : Nat}
    (named : program.symbolNames[number]? = some name) :
    (∃ position, program.ClassNamed position name ∧ number = program.classNode position) ∨
      ∃ place, program.MemberNamed place name ∧ number = program.memberNode place := by
  rcases exists_symbol (List.getElem?_eq_some_iff.mp named).1 with
    ⟨position, declaration, declared, rfl⟩ |
    ⟨position, index, declaration, member, declared, has, rfl⟩
  · rw [symbolNames_classNode declared, Option.some.injEq] at named
    exact .inl ⟨position, ⟨declaration, declared, named⟩, rfl⟩
  · rw [symbolNames_memberNode declared has, Option.some.injEq] at named
    exact .inr ⟨⟨position, index⟩, ⟨declaration, member, declared, has, named⟩, rfl⟩

end Places

theorem duplicate_of_origins {left right : Nat} {leftOrigin rightOrigin : Origin}
    (different : leftOrigin ≠ rightOrigin)
    (leftAt : ((ofProgram program).node left).origin = leftOrigin)
    (rightAt : ((ofProgram program).node right).origin = rightOrigin)
    (leftNamed : program.symbolNames[left]? = some name)
    (rightNamed : program.symbolNames[right]? = some name) :
    List.Duplicate name program.symbolNames := by
  have apart : left ≠ right := by
    intro equal
    rw [equal, rightAt] at leftAt
    exact different leftAt.symm
  rcases List.getElem?_eq_some_iff.mp leftNamed with ⟨leftWithin, leftName⟩
  rcases List.getElem?_eq_some_iff.mp rightNamed with ⟨rightWithin, rightName⟩
  apply List.duplicate_iff_exists_distinct_get.mpr
  rcases Nat.lt_or_gt_of_ne apart with below | above
  · exact ⟨⟨left, leftWithin⟩, ⟨right, rightWithin⟩, below, leftName.symm, rightName.symm⟩
  · exact ⟨⟨right, rightWithin⟩, ⟨left, leftWithin⟩, above, rightName.symm, leftName.symm⟩

theorem duplicate_iff_clash :
    List.Duplicate name program.symbolNames ↔ program.Clash name := by
  constructor
  · intro occursTwice
    rcases List.duplicate_iff_exists_distinct_get.mp occursTwice with
      ⟨⟨left, leftWithin⟩, ⟨right, rightWithin⟩, below, leftName, rightName⟩
    have apart : left ≠ right := Nat.ne_of_lt below
    have leftNumber := List.getElem?_eq_some_iff.mpr ⟨leftWithin, leftName.symm⟩
    have rightNumber := List.getElem?_eq_some_iff.mpr ⟨rightWithin, rightName.symm⟩
    rcases classNamed_or_memberNamed leftNumber with
      ⟨leftPosition, leftNamed, rfl⟩ | ⟨leftPlace, leftNamed, rfl⟩
    · rcases classNamed_or_memberNamed rightNumber with
        ⟨rightPosition, rightNamed, rfl⟩ | ⟨rightPlace, rightNamed, rfl⟩
      · exact .classes (fun equal => apart (congrArg program.classNode equal)) leftNamed rightNamed
      · exact .classAndMember leftNamed rightNamed
    · rcases classNamed_or_memberNamed rightNumber with
        ⟨rightPosition, rightNamed, rfl⟩ | ⟨rightPlace, rightNamed, rfl⟩
      · exact .classAndMember rightNamed leftNamed
      · exact .members (fun equal => apart (congrArg program.memberNode equal)) leftNamed rightNamed
  · intro clash
    cases clash with
    | classes different leftNamed rightNamed =>
        exact duplicate_of_origins (by simpa using different) leftNamed.origin rightNamed.origin
          leftNamed.number rightNamed.number
    | @members left right different leftNamed rightNamed =>
        refine duplicate_of_origins (fun equal => different ?_) leftNamed.origin rightNamed.origin
          leftNamed.number rightNamed.number
        rcases Origin.member.inj equal with ⟨sameOwner, sameIndex⟩
        cases left
        cases right
        exact MemberPosition.mk.injEq .. ▸ ⟨sameOwner, sameIndex⟩
    | classAndMember named memberNamed =>
        exact duplicate_of_origins Origin.noConfusion named.origin memberNamed.origin
          named.number memberNamed.number

theorem exists_clash_iff : (∃ name, program.Clash name) ↔ ¬program.symbolNames.Nodup := by
  simp only [← duplicate_iff_clash, List.exists_duplicate_iff_not_nodup]

/-! ## References that ask in vain -/

/-- A reference to a member of a class of the program, in which and above which
nothing like it is or may be declared. -/
def LacksMember (program : Program) (reference : Reference) : Prop :=
  ∃ signature owner declaration, reference.signature? = some signature ∧
    program.classes[owner]? = some declaration ∧ declaration.name = reference.owner ∧
      program.lookup owner signature = .missing

/-- The first of some references that asks in vain, by the name of its member and its
own. -/
def FirstLacking (program : Program) (sites : List (String × Reference))
    (source target : String) : Prop :=
  ∃ before reference after, sites = before ++ (source, reference) :: after ∧
    program.LacksMember reference ∧ reference.qualifiedName = target ∧
      ∀ site ∈ before, ¬program.LacksMember site.2

theorem isUnresolved_iff_lacksMember (distinct : program.symbolNames.Nodup)
    (reference : Reference) : program.isUnresolved reference ↔ program.LacksMember reference := by
  constructor
  · intro unresolved
    unfold isUnresolved at unresolved
    split at unresolved
    next signature owner asks found =>
      rcases (position?_eq_some_iff distinct _).mp found with ⟨declaration, declared, named⟩
      exact ⟨signature, owner, declaration, asks, declared, named, of_decide_eq_true unresolved⟩
    next => contradiction
  · intro lacks
    rcases lacks with ⟨signature, owner, declaration, asks, declared, named, missing⟩
    have found := (position?_eq_some_iff distinct _).mpr ⟨declaration, declared, named⟩
    simp [isUnresolved, asks, found, missing]

def unresolvedAmong? (program : Program) (sites : List (String × Reference)) :
    Option (String × String) :=
  (sites.find? fun site => program.isUnresolved site.2).map fun site =>
    (site.1, site.2.qualifiedName)

theorem unresolvedAmong?_eq_some_iff (distinct : program.symbolNames.Nodup)
    {sites : List (String × Reference)} :
    program.unresolvedAmong? sites = some (source, target) ↔
      program.FirstLacking sites source target := by
  rw [unresolvedAmong?, Option.map_eq_some_iff]
  constructor
  · intro found
    rcases found with ⟨⟨_, reference⟩, found, equal⟩
    rcases Prod.mk.inj equal with ⟨rfl, named⟩
    rcases List.find?_eq_some_iff_append.mp found with ⟨unresolved, before, after, split, resolved⟩
    refine ⟨before, reference, after, split,
      (isUnresolved_iff_lacksMember distinct _).mp unresolved, named, fun site earlier lacks => ?_⟩
    have unresolved := (isUnresolved_iff_lacksMember distinct _).mpr lacks
    simpa [unresolved] using resolved site earlier
  · intro first
    rcases first with ⟨before, reference, after, split, lacks, named, others⟩
    refine ⟨(source, reference), List.find?_eq_some_iff_append.mpr ⟨?_, before, after, split, ?_⟩,
      Prod.mk.injEq .. ▸ ⟨rfl, named⟩⟩
    · exact (isUnresolved_iff_lacksMember distinct _).mpr lacks
    · intro site earlier
      have resolved := mt (isUnresolved_iff_lacksMember distinct _).mp (others site earlier)
      simpa using resolved

def classSites (declaration : ClassDecl) : List (String × Reference) :=
  declaration.members.flatMap fun member =>
    member.references.map fun reference => (member.qualifiedName declaration.name, reference)

def referenceSites (program : Program) : List (String × Reference) :=
  program.classes.flatMap classSites

theorem unresolvedIn?_eq (program : Program) (declaration : ClassDecl) :
    program.unresolvedIn? declaration = program.unresolvedAmong? (classSites declaration) := by
  simp only [unresolvedIn?, unresolvedAmong?, classSites, List.find?_flatMap, List.find?_map,
    List.map_findSome?, Option.map_map, Function.comp_def]

theorem firstUnresolved?_eq (program : Program) :
    program.firstUnresolved? = program.unresolvedAmong? program.referenceSites := by
  rw [unresolvedAmong?, referenceSites, List.find?_flatMap, List.map_findSome?, firstUnresolved?]
  exact congrArg (List.findSome? · program.classes) (funext (unresolvedIn?_eq program))

theorem firstUnresolved?_eq_none_iff_sites (distinct : program.symbolNames.Nodup) :
    program.firstUnresolved? = none ↔
      ¬∃ site ∈ program.referenceSites, program.LacksMember site.2 := by
  simp only [firstUnresolved?_eq, unresolvedAmong?, Option.map_eq_none_iff, List.find?_eq_none,
    isUnresolved_iff_lacksMember distinct, not_exists, not_and]

end Program

namespace ProgramGraph

variable {program : Program} {resolution : Resolution}

/-! ## Construction -/

theorem construct_eq_duplicateSymbol_iff (complete : resolution.Complete program)
    {name : String} :
    construct program resolution = .error (.duplicateSymbol name) ↔
      program.FirstRepeated name := by
  rw [← Program.firstRepeat?_nil_eq_some_iff, construct_eq complete]
  cases Program.firstRepeat? [] program.symbolNames with
  | some repeated => simp
  | none =>
      cases first : resolution.fault? program with
      | none => simp
      | some fault =>
          rcases Resolution.exists_site first with ⟨_, _, site, _, rfl⟩
          simp [unresolvedFault]

theorem construct_eq_unresolvedMember_iff (complete : resolution.Complete program)
    {source target : String} :
    construct program resolution = .error (.unresolvedMember source target) ↔
      program.symbolNames.Nodup ∧
        resolution.fault? program = some (.unresolvedMember source target) := by
  rw [construct_eq complete]
  cases repeated : Program.firstRepeat? [] program.symbolNames with
  | some name =>
      have clashes : ¬program.symbolNames.Nodup := by
        intro distinct
        simp [(Program.firstRepeat?_eq_none_iff [] _).mpr ⟨distinct, by simp⟩] at repeated
      simp [clashes]
  | none =>
      have distinct : program.symbolNames.Nodup :=
        ((Program.firstRepeat?_eq_none_iff [] _).mp repeated).1
      cases resolution.fault? program <;> simp [distinct]

theorem map_unresolvedFault_eq_some_iff {site? : Option (String × String)}
    {source target : String} :
    site?.map unresolvedFault = some (.unresolvedMember source target) ↔
      site? = some (source, target) := by
  cases site? <;> simp [unresolvedFault, Prod.ext_iff]

theorem build_eq_unresolvedMember_iff {source target : String} :
    build program = .error (.unresolvedMember source target) ↔
      program.symbolNames.Nodup ∧
        program.FirstLacking program.referenceSites source target := by
  have inTurn : Resolution.Complete program .inTurn := trivial
  refine (construct_eq_unresolvedMember_iff inTurn).trans (and_congr_right fun distinct => ?_)
  rw [Resolution.fault?, map_unresolvedFault_eq_some_iff, Program.firstUnresolved?_eq,
    Program.unresolvedAmong?_eq_some_iff distinct]

/-- Workers may report the first such reference of any class that has one. -/
theorem exists_order_iff {source target : String} :
    (∃ order, order.Perm program.positions ∧
      construct program (.byWorkers order) = .error (.unresolvedMember source target)) ↔
      program.symbolNames.Nodup ∧ ∃ declaration ∈ program.classes,
        program.FirstLacking (Program.classSites declaration) source target := by
  constructor
  · rintro ⟨order, complete, failed⟩
    have byWorkers : Resolution.Complete program (.byWorkers order) := complete
    rcases (construct_eq_unresolvedMember_iff byWorkers).mp failed with ⟨distinct, first⟩
    rcases Resolution.exists_site first with ⟨declaration, isClass, site, found, reported⟩
    cases reported
    rw [Program.unresolvedIn?_eq, Program.unresolvedAmong?_eq_some_iff distinct] at found
    exact ⟨distinct, declaration, isClass, found⟩
  · rintro ⟨distinct, declaration, isClass, lacking⟩
    rcases List.mem_iff_getElem?.mp isClass with ⟨position, declared⟩
    -- The worker with this class is the first to hand in.
    have complete : (position :: program.positions.erase position).Perm program.positions :=
      (List.perm_cons_erase (Program.mem_positions_of_declared declared)).symm
    have byWorkers : Resolution.Complete program
      (.byWorkers (position :: program.positions.erase position)) := complete
    have faulty : program.faultAt? position = some (.unresolvedMember source target) := by
      rw [Program.faultAt?, map_unresolvedFault_eq_some_iff, declared, Option.bind_some,
        Program.unresolvedIn?_eq, Program.unresolvedAmong?_eq_some_iff distinct]
      exact lacking
    refine ⟨_, complete, (construct_eq_unresolvedMember_iff byWorkers).mpr ⟨distinct, ?_⟩⟩
    rw [Resolution.fault?, List.findSome?_cons, faulty]

/-- An answer of construction fails on a name that two symbols have, and then on the
first that occurs again, and otherwise on a reference that asks in vain. -/
structure FailsExactly (program : Program) (answer : Except ShrinkError ProgramGraph) : Prop where
  duplicate : (∃ name, answer = .error (.duplicateSymbol name)) ↔ ∃ name, program.Clash name
  firstDuplicate : ∀ name, answer = .error (.duplicateSymbol name) ↔ program.FirstRepeated name
  unresolved : (∃ source target, answer = .error (.unresolvedMember source target)) ↔
    (¬∃ name, program.Clash name) ∧ ∃ site ∈ program.referenceSites, program.LacksMember site.2
  succeeds : (∃ graph, answer = .ok graph) ↔
    (¬∃ name, program.Clash name) ∧
      ¬∃ site ∈ program.referenceSites, program.LacksMember site.2

theorem construct_failsExactly (complete : resolution.Complete program) :
    FailsExactly program (construct program resolution) := by
  refine ⟨?_, fun name => construct_eq_duplicateSymbol_iff complete, ?_, ?_⟩
  all_goals
    rw [Program.exists_clash_iff]
    rcases construct_cases complete with
      ⟨repeated, _, failed⟩ | ⟨distinct, unresolved, _, _, failed⟩ | ⟨distinct, resolved, built⟩
    · simp [failed, repeated]
    · rw [Ne, Program.firstUnresolved?_eq_none_iff_sites distinct, not_not] at unresolved
      simp [failed, distinct, unresolved]
    · rw [Program.firstUnresolved?_eq_none_iff_sites distinct] at resolved
      simp [built, distinct, resolved]

/-- Construction fails exactly on a name that two symbols have, whether classes or
members, and otherwise exactly on a reference that asks a class of the program for a
member it cannot have. In the first case it reports the first symbol in the program
whose name has occurred before. In the second, it reports the first such reference of
the program if the classes are resolved in turn; if workers hand them in, it may
report the first such reference of any class that has one, and no other. -/
theorem construction_fails_exactly (program : Program) :
    (∀ name, List.Duplicate name program.symbolNames ↔ program.Clash name) ∧
    (∀ parallel, FailsExactly program (build program parallel)) ∧
    (∀ order, order.Perm program.positions →
      FailsExactly program (construct program (.byWorkers order)) ∧
      ∀ graph, construct program (.byWorkers order) = .ok graph ↔ build program = .ok graph) ∧
    (∀ source target, build program = .error (.unresolvedMember source target) ↔
      (¬∃ name, program.Clash name) ∧
        program.FirstLacking program.referenceSites source target) ∧
    ∀ source target,
      (∃ order, order.Perm program.positions ∧
        construct program (.byWorkers order) = .error (.unresolvedMember source target)) ↔
      (¬∃ name, program.Clash name) ∧ ∃ declaration ∈ program.classes,
        program.FirstLacking (Program.classSites declaration) source target := by
  simp only [Program.exists_clash_iff, not_not]
  refine ⟨fun name => Program.duplicate_iff_clash, fun parallel => ?_, fun order complete => ?_,
    fun source target => build_eq_unresolvedMember_iff, fun source target => exists_order_iff⟩
  · exact construct_failsExactly (Resolution.ofFlag_complete program parallel)
  · have byWorkers : Resolution.Complete program (.byWorkers order) := complete
    refine ⟨construct_failsExactly byWorkers, fun graph => ?_⟩
    rw [build_eq_ok_iff, construct_eq_ok_iff byWorkers]

/-- A class has the name of a member that asks in vain. The repeated name is reported,
though the reference stands before it. -/
example :
    build
      ⟨[{ name := "Shape"
          members :=
            [{ kind := .method, name := "draw", descriptor := ""
               references := [{ owner := "Shape", name := some "scale" }] }] },
        { name := "Shape.draw:" }]⟩ = .error (.duplicateSymbol "Shape.draw:") := by
  decide +kernel

end ProgramGraph

/-! Two classes, each with a reference that asks in vain. -/

namespace TwoFaults

def method (owner : String) : Member where
  kind := .method
  name := "run"
  descriptor := ""
  references := [{ owner, name := some "gone" }]

def program : Program :=
  ⟨[{ name := "Left", members := [method "Left"] },
    { name := "Right", members := [method "Right"] }]⟩

/-- If the second class is handed in first, its reference is reported, which is the first
in that class. -/
theorem workers_fail_exactly :
    [1, 0].Perm program.positions ∧
    ProgramGraph.FailsExactly program (ProgramGraph.construct program (.byWorkers [1, 0])) ∧
    ProgramGraph.construct program (.byWorkers [1, 0]) =
      .error (.unresolvedMember "Right.run:" "Right.gone:") ∧
    ∃ declaration ∈ program.classes,
      program.FirstLacking (Program.classSites declaration) "Right.run:" "Right.gone:" := by
  have all : [1, 0].Perm program.positions := by decide +kernel
  have reported : ProgramGraph.construct program (.byWorkers [1, 0]) =
      .error (.unresolvedMember "Right.run:" "Right.gone:") := by
    decide +kernel
  rcases ProgramGraph.construction_fails_exactly program with ⟨_, _, byWorkers, _, anyClass⟩
  exact ⟨all, (byWorkers [1, 0] all).1, reported, ((anyClass _ _).mp ⟨[1, 0], all, reported⟩).2⟩

/-- Workers report the reference of the second class, though it is not the first of
the program. -/
theorem workers_report_later_class :
    ProgramGraph.build program true = .error (.unresolvedMember "Right.run:" "Right.gone:") ∧
    ¬∀ parallel source target,
      ProgramGraph.build program parallel = .error (.unresolvedMember source target) →
        program.FirstLacking program.referenceSites source target := by
  have reported : ProgramGraph.build program true =
      .error (.unresolvedMember "Right.run:" "Right.gone:") := by
    decide +kernel
  have inTurn : ProgramGraph.build program ≠
      .error (.unresolvedMember "Right.run:" "Right.gone:") := by
    decide +kernel
  refine ⟨reported, fun alwaysFirst => inTurn ?_⟩
  exact ProgramGraph.build_eq_unresolvedMember_iff.mpr
    ⟨by decide +kernel, alwaysFirst true _ _ reported⟩

end TwoFaults

end ClassShrink
