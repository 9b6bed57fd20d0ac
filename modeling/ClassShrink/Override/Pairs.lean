import ClassShrink.Ascending
import ClassShrink.Hierarchy.Dispatch

/-! # Override pairs

A method that runs for calls on a class overrides every virtual method with its
signature on the class's supertypes: then a call through the supertype may run
it. This covers a method that a class inherits and that implements an interface
of the class. -/

namespace ClassShrink

def MemberPosition.le (left right : MemberPosition) : Bool :=
  pairLe (left.owner, left.index) (right.owner, right.index)

namespace Program

/-! ## Pairs of methods -/

/-- The pairs that arise from calls on one class: a method that runs for them,
and a method of a supertype with the same signature on another class. -/
def methodPairsAt (program : Program) (position : Nat) :
    List (MemberPosition × MemberPosition) :=
  let table := program.dispatchTable position
  (program.supertypes position).flatMap fun supertype =>
    (program.virtualMethods supertype).filterMap fun (signature, overridden) =>
      match table.lookup signature with
      | some overrider =>
          if overrider.owner = supertype then none else some (overrider, overridden)
      | none => none

def methodPairs (program : Program) : List (MemberPosition × MemberPosition) :=
  ascending (lexLe MemberPosition.le MemberPosition.le)
    (program.positions.flatMap program.methodPairsAt)

/-! ## Pairs with library methods -/

def supertypeNames (program : Program) (position : Nat) : List String :=
  (program.supertypes position).filterMap (fun supertype =>
    program.classes[supertype]?.map (·.name)) ++ program.externalSupertypes position

/-- The pairs that arise from calls on one class of a method and a boundary
symbol that is named like a method of a supertype. -/
def libraryPairsAt (program : Program) (boundary? : String → Option Nat) (position : Nat) :
    List (MemberPosition × Nat) :=
  let table := program.dispatchTable position
  (program.supertypeNames position).flatMap fun owner =>
    table.filterMap fun (signature, overrider) =>
      (boundary? (signature.key owner)).map fun boundary => (overrider, boundary)

def libraryPairs (program : Program) (boundary? : String → Option Nat) :
    List (MemberPosition × Nat) :=
  ascending (lexLe MemberPosition.le natLe)
    (program.positions.flatMap (program.libraryPairsAt boundary?))

end Program

end ClassShrink
