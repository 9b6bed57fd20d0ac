import ClassShrink.Hierarchy.Lookup

/-! # Virtual dispatch

A virtual call on an object runs the nearest virtual method with the called
signature on the superclass chain of the object's class. -/

namespace ClassShrink.Program

def virtualMethods (program : Program) (position : Nat) : List (Signature × MemberPosition) :=
  let members := (program.classes[position]?.map (·.members)).getD []
  (members.zipIdx.filter fun (member, _) => member.isVirtual).map fun (member, index) =>
    (member.signature, ⟨position, index⟩)

def visibleMethods (program : Program) (chain : List Nat) : List (Signature × MemberPosition) :=
  chain.flatMap program.virtualMethods

def dispatch? (program : Program) (position : Nat) (signature : Signature) :
    Option MemberPosition :=
  (program.visibleMethods (program.chain position)).lookup signature

def dispatchTable (program : Program) (position : Nat) : List (Signature × MemberPosition) :=
  let visible := program.visibleMethods (program.chain position)
  (visible.map Prod.fst).eraseDups.filterMap fun signature =>
    (visible.lookup signature).map fun method => (signature, method)

end ClassShrink.Program
