import ClassShrink.Proofs.Lookup
import Mathlib.Logic.Function.Iterate

/-! # Looking up class by class

A lookup can go from class to class without knowing where it will end: up the
superclass chain until that is over or comes back to a class it has passed, and
then through a queue of interfaces, in which classes may occur again. Such a
search ends on every hierarchy, and with the answer of the lookup. -/

namespace ClassShrink

/-- How far a search has come: on the superclass chain, with the classes it has
passed there, in the queue of interfaces, with those it has seen, or at its end.
Before the end it also knows whether some parent was external. -/
inductive Search where
  | climbing (next : Option Nat) (chain : List Nat) (external : Bool)
  | spreading (pending seen : List Nat) (external : Bool)
  | ended (answer : Lookup)
deriving DecidableEq, Repr

def Lookup.verdict (found : Option MemberPosition) (external : Bool) : Lookup :=
  match found with
  | some declaration => .found declaration
  | none => if external then .maybeInherited else .missing

namespace Program

variable {program : Program} {signature : Signature} {search : Search} {answer : Lookup}
  {external : Bool}

/-! ## Steps -/

def hasExternalSuperclass (program : Program) (position : Nat) : Bool :=
  (program.superclassName? position).toList.any fun name => (program.position? name).isNone

def hasExternalInterface (program : Program) (position : Nat) : Bool :=
  (program.interfaceNames position).any fun name => (program.position? name).isNone

def spread (program : Program) (chain : List Nat) (external : Bool) : Search :=
  .spreading (chain.flatMap program.interfaces) []
    (external || chain.any program.hasExternalInterface)

def searchStep (program : Program) (signature : Signature) : Search → Search
  | .climbing none chain external => program.spread chain external
  | .climbing (some position) chain external =>
      if position ∈ chain then program.spread chain external
      else
        match program.declared? signature position with
        | some declaration => .ended (.found declaration)
        | none =>
            .climbing ((program.superclassName? position).bind program.position?)
              (chain ++ [position]) (external || program.hasExternalSuperclass position)
  | .spreading [] _ external => .ended (.verdict none external)
  | .spreading (position :: pending) seen external =>
      if position ∈ seen then .spreading pending seen external
      else
        match program.declared? signature position with
        | some declaration => .ended (.found declaration)
        | none =>
            .spreading (pending ++ program.interfaces position) (position :: seen)
              (external || program.hasExternalInterface position)
  | .ended answer => .ended answer

def SearchEnds (program : Program) (signature : Signature) (search : Search) (answer : Lookup) :
    Prop :=
  ∃ count, Nat.iterate (program.searchStep signature) count search = .ended answer

theorem SearchEnds.of_step
    (ends : program.SearchEnds signature (program.searchStep signature search) answer) :
    program.SearchEnds signature search answer := by
  rcases ends with ⟨count, ended⟩
  exact ⟨count + 1, ended⟩

theorem searchEnds_of_step (ends : program.searchStep signature search = .ended answer) :
    program.SearchEnds signature search answer :=
  ⟨1, ends⟩

/-! ## The queue of interfaces -/

/-- From any queue, the search goes on through what is left to be visited. -/
theorem spreading_ends {unvisited pending seen : List Nat} (distinct : unvisited.Nodup)
    (left : ∀ position, position ∈ unvisited ↔ position ∈ program.positions ∧ position ∉ seen)
    (inside : ∀ position ∈ pending, position ∈ program.positions) :
    program.SearchEnds signature (.spreading pending seen external)
      (.verdict
        ((Worklist.drain .breadthFirst program.interfaces unvisited pending).findSome?
          (program.declared? signature))
        (external || (Worklist.drain .breadthFirst program.interfaces unvisited pending).any
          program.hasExternalInterface)) := by
  induction unvisited, pending using
      Worklist.drain_induction .breadthFirst program.interfaces
      generalizing seen external with
  | done unvisited =>
      apply searchEnds_of_step
      simp [searchStep]
  | seen unvisited node pending absent induction =>
      have passed : node ∈ seen := by
        by_contra fresh
        exact absent ((left node).mpr ⟨inside node List.mem_cons_self, fresh⟩)
      have step : program.searchStep signature (.spreading (node :: pending) seen external) =
          .spreading pending seen external := by
        simp [searchStep, passed]
      rw [Worklist.drain_cons_of_not_mem pending absent]
      apply SearchEnds.of_step
      rw [step]
      exact induction distinct left fun position member =>
        inside position (List.mem_cons_of_mem _ member)
  | fresh unvisited node pending present induction =>
      have fresh := ((left node).mp present).2
      rw [Worklist.drain_cons_of_mem pending present, List.findSome?_cons]
      cases declares : program.declared? signature node with
      | some declaration =>
          apply searchEnds_of_step
          simp [searchStep, fresh, declares, Lookup.verdict]
      | none =>
          have step : program.searchStep signature (.spreading (node :: pending) seen external) =
              .spreading (pending ++ program.interfaces node) (node :: seen)
                (external || program.hasExternalInterface node) := by
            simp [searchStep, fresh, declares]
          apply SearchEnds.of_step
          rw [step, List.any_cons, ← Bool.or_assoc]
          apply induction (distinct.erase node)
          · intro position
            rw [distinct.mem_erase_iff, left, List.mem_cons, not_or]
            exact and_left_comm
          · intro position member
            rcases List.mem_append.mp member with waiting | added
            · exact inside position (List.mem_cons_of_mem _ waiting)
            · exact mem_positions_of_mem_defined added

/-! ## The superclass chain -/

theorem spread_ends (chain : List Nat) :
    program.SearchEnds signature (program.spread chain external)
      (.verdict ((program.interfaceWalk chain).findSome? (program.declared? signature))
        (external || (chain ++ program.interfaceWalk chain).any program.hasExternalInterface)) := by
  rw [List.any_append, ← Bool.or_assoc]
  apply spreading_ends positions_nodup
  · simp
  · intro position member
    rcases List.mem_flatMap.mp member with ⟨_, _, interface⟩
    exact mem_positions_of_mem_defined interface

def answerAbove (program : Program) (signature : Signature) (passed ahead : List Nat)
    (external : Bool) : Lookup :=
  .verdict
    ((ahead ++ program.interfaceWalk (passed ++ ahead)).findSome? (program.declared? signature))
    (external || ahead.any program.hasExternalSuperclass ||
      (passed ++ ahead ++ program.interfaceWalk (passed ++ ahead)).any
        program.hasExternalInterface)

variable {passed ahead : List Nat} {node : Nat}

theorem spread_ends_nil (passed : List Nat) :
    program.SearchEnds signature (program.spread passed external)
      (program.answerAbove signature passed [] external) := by
  rw [answerAbove, List.any_nil, Bool.or_false, List.nil_append, List.append_nil]
  exact spread_ends passed

theorem answerAbove_of_declared {declaration : MemberPosition}
    (declares : program.declared? signature node = some declaration) :
    program.answerAbove signature passed (node :: ahead) external = .found declaration := by
  simp [answerAbove, declares, Lookup.verdict]

theorem answerAbove_of_undeclared (declares : program.declared? signature node = none) :
    program.answerAbove signature passed (node :: ahead) external =
      program.answerAbove signature (passed ++ [node]) ahead
        (external || program.hasExternalSuperclass node) := by
  rw [answerAbove, answerAbove, List.cons_append, List.findSome?_cons, declares, List.any_cons,
    ← Bool.or_assoc, List.append_cons passed node ahead]

/-- From any class of the chain, the search goes up what is left of it and then
on to the interfaces of the whole chain. -/
theorem climbing_ends {unvisited pending : List Nat} : ∀ {next : Option Nat} {passed : List Nat}
    {external : Bool}, unvisited.Nodup → pending = next.toList →
    (∀ position, position ∈ unvisited ↔ position ∈ program.positions ∧ position ∉ passed) →
    (∀ position ∈ next, position ∈ program.positions) →
    program.SearchEnds signature (.climbing next passed external)
      (program.answerAbove signature passed
        (Worklist.drain .breadthFirst program.superclasses unvisited pending) external) := by
  -- A class has at most one superclass, so the queue holds the next class or nothing.
  induction unvisited, pending using
      Worklist.drain_induction .breadthFirst program.superclasses with
  | done unvisited =>
      rintro next passed external - queue - -
      obtain rfl : next = none := Option.toList_eq_nil_iff.mp queue.symm
      rw [Worklist.drain_nil]
      exact (spread_ends_nil passed).of_step
  | seen unvisited node pending absent _ =>
      rintro (_ | _) passed external distinct ⟨⟩ left inside
      have again : node ∈ passed := by
        by_contra fresh
        exact absent ((left node).mpr ⟨inside node rfl, fresh⟩)
      have step : program.searchStep signature (.climbing (some node) passed external) =
          program.spread passed external := by
        simp [searchStep, again]
      rw [Worklist.drain_cons_of_not_mem _ absent, Worklist.drain_nil]
      exact SearchEnds.of_step (step ▸ spread_ends_nil passed)
  | fresh unvisited node pending present induction =>
      rintro (_ | _) passed external distinct ⟨⟩ left inside
      have fresh := ((left node).mp present).2
      rw [Worklist.drain_cons_of_mem _ present]
      cases declares : program.declared? signature node with
      | some declaration =>
          rw [answerAbove_of_declared declares]
          apply searchEnds_of_step
          simp [searchStep, fresh, declares]
      | none =>
          have step : program.searchStep signature (.climbing (some node) passed external) =
              .climbing ((program.superclassName? node).bind program.position?)
                (passed ++ [node]) (external || program.hasExternalSuperclass node) := by
            simp [searchStep, fresh, declares]
          rw [answerAbove_of_undeclared declares]
          apply SearchEnds.of_step
          rw [step]
          apply induction (distinct.erase node)
          · exact superclasses_eq_toList node
          · intro position
            rw [distinct.mem_erase_iff, left, List.mem_append, List.mem_singleton, not_or]
            constructor
            · rintro ⟨different, inside, apart⟩
              exact ⟨inside, apart, different⟩
            · rintro ⟨inside, apart, different⟩
              exact ⟨different, inside, apart⟩
          · intro position isUpper
            have superclass : position ∈ program.superclasses node := by
              rw [superclasses_eq_toList]
              exact Option.mem_toList.mpr isUpper
            exact mem_positions_of_mem_defined superclass

/-! ## The whole search -/

theorem leavesProgram_eq_any (chain walk : List Nat) :
    program.leavesProgram chain walk =
      (chain.any program.hasExternalSuperclass ||
        (chain ++ walk).any program.hasExternalInterface) := by
  have undefined (names : List String) : (!(program.undefinedNames names).isEmpty) =
      names.any fun name => (program.position? name).isNone := by
    rw [Bool.eq_iff_iff]
    simp [undefinedNames]
  rw [leavesProgram, undefined, List.any_append, List.any_flatMap, List.any_flatMap]
  rfl

theorem lookup_eq_verdict (owner : Nat) (signature : Signature) :
    program.lookup owner signature =
      .verdict ((program.lookupPath owner).findSome? (program.declared? signature))
        (program.leavesProgram (program.chain owner)
          (program.interfaceWalk (program.chain owner))) := by
  rw [lookup_eq]
  cases (program.lookupPath owner).findSome? (program.declared? signature) <;> rfl

theorem lookup_searchEnds {owner : Nat} (inside : owner ∈ program.positions)
    (signature : Signature) :
    program.SearchEnds signature (.climbing (some owner) [] false)
      (program.lookup owner signature) := by
  have ends : program.SearchEnds signature (.climbing (some owner) [] false)
      (program.answerAbove signature [] (program.chain owner) false) :=
    climbing_ends positions_nodup rfl (by simp) (by simpa using inside)
  rw [lookup_eq_verdict, leavesProgram_eq_any]
  exact ends

end Program

end ClassShrink
