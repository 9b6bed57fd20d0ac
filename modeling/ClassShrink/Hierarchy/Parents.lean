import ClassShrink.Program.Basic
import ClassShrink.Worklist

/-! # The class hierarchy

Classes are addressed by their positions in the program. A parent of a class is
its superclass or one of its interfaces; parents that the program does not
define are external. Hierarchies may be cyclic. -/

namespace ClassShrink.Program

/-! ## Positions -/

def positions (program : Program) : List Nat :=
  List.range program.classes.length

def position? (program : Program) (name : String) : Option Nat :=
  program.classes.findIdx? fun declaration => declaration.name = name

def defined (program : Program) (names : List String) : List Nat :=
  names.filterMap program.position?

def undefinedNames (program : Program) (names : List String) : List String :=
  names.filter fun name => (program.position? name).isNone

/-! ## Parents -/

def superclassName? (program : Program) (position : Nat) : Option String :=
  program.classes[position]?.bind (·.superclass)

def interfaceNames (program : Program) (position : Nat) : List String :=
  (program.classes[position]?.map (·.interfaces)).getD []

def parentNames (program : Program) (position : Nat) : List String :=
  (program.superclassName? position).toList ++ program.interfaceNames position

def superclasses (program : Program) (position : Nat) : List Nat :=
  program.defined (program.superclassName? position).toList

def interfaces (program : Program) (position : Nat) : List Nat :=
  program.defined (program.interfaceNames position)

def parents (program : Program) (position : Nat) : List Nat :=
  program.defined (program.parentNames position)

/-! ## Walks -/

/-- The superclass chain: the class itself, its superclass, and so on, up to a
class whose superclass is absent, external or on the chain already. -/
def chain (program : Program) (position : Nat) : List Nat :=
  Worklist.explore .breadthFirst program.superclasses program.positions [position]

/-- The interfaces of the classes on a chain and their interfaces in turn, those
with fewer links to the chain first. -/
def interfaceWalk (program : Program) (chain : List Nat) : List Nat :=
  Worklist.explore .breadthFirst program.interfaces program.positions
    (chain.flatMap program.interfaces)

def supertypes (program : Program) (position : Nat) : List Nat :=
  (Worklist.explore .breadthFirst program.parents program.positions [position]).filter
    fun other => other ≠ position

def externalSupertypes (program : Program) (position : Nat) : List String :=
  program.undefinedNames ((position :: program.supertypes position).flatMap program.parentNames)

end ClassShrink.Program
