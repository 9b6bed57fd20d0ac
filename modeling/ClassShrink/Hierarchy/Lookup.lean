import ClassShrink.Hierarchy.Parents

/-! # Member lookup

Which declaration a member reference binds to: one on the owner's superclass
chain if there is any, nearest first, and otherwise one of an interface. A
member that is declared nowhere may still be inherited from an external
supertype. -/

namespace ClassShrink

structure MemberPosition where
  owner : Nat
  index : Nat
deriving DecidableEq, Repr

inductive Lookup where
  | found (declaration : MemberPosition)
  | maybeInherited
  | missing
deriving DecidableEq, Repr

namespace Program

def declared? (program : Program) (signature : Signature) (position : Nat) :
    Option MemberPosition :=
  program.classes[position]?.bind fun declaration =>
    (declaration.members.findIdx? fun member => member.signature = signature).map
      fun index => ⟨position, index⟩

/-- Whether some class of a chain has an external superclass, or some class of
the chain or of its interface walk names an external interface. -/
def leavesProgram (program : Program) (chain walk : List Nat) : Bool :=
  let superclassNames := chain.flatMap fun position => (program.superclassName? position).toList
  let interfaceNames := (chain ++ walk).flatMap program.interfaceNames
  !(program.undefinedNames (superclassNames ++ interfaceNames)).isEmpty

def lookup (program : Program) (owner : Nat) (signature : Signature) : Lookup :=
  let chain := program.chain owner
  let walk := program.interfaceWalk chain
  match (chain ++ walk).findSome? (program.declared? signature) with
  | some declaration => .found declaration
  | none => if program.leavesProgram chain walk then .maybeInherited else .missing

end Program

end ClassShrink
