import ClassShrink.Hierarchy.Dispatch
import ClassShrink.Proofs.Hierarchy

/-! # What a virtual call runs

The entry of a dispatch table for a signature is the virtual method with that
signature on the first class of the superclass chain that declares one. -/

namespace ClassShrink

/-! ## Tables -/

section Tables

variable {κ ν ε : Type} [DecidableEq κ]

theorem mem_of_lookup_eq_some {entries : List (κ × ν)} {key : κ} {value : ν}
    (found : entries.lookup key = some value) : (key, value) ∈ entries := by
  rcases List.lookup_eq_some_iff.mp found with ⟨before, after, rfl, _⟩
  simp

theorem lookup_eq_some_of_mem {entries : List (κ × ν)} {key : κ} {value : ν}
    (member : (key, value) ∈ entries)
    (unique : ∀ other, (key, other) ∈ entries → other = value) :
    entries.lookup key = some value := by
  cases found : entries.lookup key with
  | none =>
      have absent := List.lookup_eq_none_iff.mp found (key, value) member
      simp at absent
  | some other => rw [unique other (mem_of_lookup_eq_some found)]

theorem lookup_flatMap (table : ε → List (κ × ν)) (elements : List ε) (key : κ) :
    (elements.flatMap table).lookup key =
      elements.findSome? fun element => (table element).lookup key := by
  induction elements with
  | nil => rfl
  | cons head tail induction =>
      rw [List.flatMap_cons, List.lookup_append, induction, List.findSome?_cons]
      cases (table head).lookup key <;> rfl

theorem lookup_eq_of_mem_iff {entries : List (κ × ν)} {key : κ} {value? : Option ν}
    (members : ∀ value, (key, value) ∈ entries ↔ value? = some value) :
    entries.lookup key = value? := by
  cases known : value? with
  | none =>
      rw [List.lookup_eq_none_iff]
      intro entry member
      have different : key ≠ entry.1 := by
        intro equal
        rw [(members entry.2).mp (equal ▸ member)] at known
        cases known
      simpa using different
  | some value =>
      apply lookup_eq_some_of_mem ((members value).mpr known)
      intro other member
      rw [(members other).mp member] at known
      exact Option.some.inj known

end Tables

namespace Program

variable {program : Program} {position : Nat} {signature : Signature} {method : MemberPosition}

/-! ## Virtual methods -/

def memberAt? (program : Program) (place : MemberPosition) : Option Member :=
  program.classes[place.owner]?.bind fun declaration => declaration.members[place.index]?

def HasVirtual (program : Program) (signature : Signature) (place : MemberPosition) : Prop :=
  ∃ member, program.memberAt? place = some member ∧ member.isVirtual ∧
    member.signature = signature

theorem memberAt?_eq_some_iff {member : Member} :
    program.memberAt? method = some member ↔
      ∃ declaration, program.classes[method.owner]? = some declaration ∧
        declaration.members[method.index]? = some member := by
  simp [memberAt?, Option.bind_eq_some_iff]

theorem has_of_memberAt? {declaration : ClassDecl} {member : Member}
    (present : program.memberAt? method = some member)
    (declared : program.classes[method.owner]? = some declaration) :
    declaration.members[method.index]? = some member := by
  simpa [memberAt?, declared] using present

theorem HasVirtual.unique (distinct : program.symbolNames.Nodup) {other : MemberPosition}
    (left : program.HasVirtual signature method) (right : program.HasVirtual signature other)
    (sameOwner : method.owner = other.owner) : method = other := by
  rcases method with ⟨owner, index⟩
  rcases other with ⟨otherOwner, otherIndex⟩
  obtain rfl : owner = otherOwner := sameOwner
  rcases left with ⟨leftMember, leftAt, _, leftSignature⟩
  rcases right with ⟨rightMember, rightAt, _, rightSignature⟩
  rcases memberAt?_eq_some_iff.mp leftAt with ⟨declaration, declared, leftHas⟩
  have rightHas := has_of_memberAt? rightAt declared
  have sameIndex : index = otherIndex :=
    member_unique distinct declared leftHas rightHas (leftSignature.trans rightSignature.symm)
  rw [sameIndex]

theorem mem_virtualMethods_iff :
    (signature, method) ∈ program.virtualMethods position ↔
      method.owner = position ∧ program.HasVirtual signature method := by
  rcases method with ⟨owner, index⟩
  simp only [virtualMethods, List.mem_map, List.mem_filter, Prod.exists, Prod.mk.injEq,
    MemberPosition.mk.injEq, List.mk_mem_zipIdx_iff_getElem?]
  constructor
  · intro listed
    rcases listed with ⟨member, _, ⟨has, isVirtual⟩, rfl, rfl, rfl⟩
    refine ⟨rfl, member, ?_, isVirtual, rfl⟩
    cases declared : program.classes[position]? with
    | none => simp [declared] at has
    | some declaration => simpa [memberAt?, declared] using has
  · intro isDeclared
    rcases isDeclared with ⟨rfl, member, present, isVirtual, rfl⟩
    rcases memberAt?_eq_some_iff.mp present with ⟨declaration, declared, has⟩
    exact ⟨member, index, ⟨by simpa [declared] using has, isVirtual⟩, rfl, rfl, rfl⟩

def virtual? (program : Program) (signature : Signature) (position : Nat) :
    Option MemberPosition :=
  (program.virtualMethods position).lookup signature

theorem virtual?_eq_some_iff (distinct : program.symbolNames.Nodup) :
    program.virtual? signature position = some method ↔
      method.owner = position ∧ program.HasVirtual signature method := by
  rw [← mem_virtualMethods_iff]
  constructor
  · exact mem_of_lookup_eq_some
  · intro member
    apply lookup_eq_some_of_mem member
    intro other otherMember
    have here := mem_virtualMethods_iff.mp member
    have there := mem_virtualMethods_iff.mp otherMember
    exact there.2.unique distinct here.2 (there.1.trans here.1.symm)

/-! ## Dispatch -/

theorem dispatch?_eq_findSome? (position : Nat) (signature : Signature) :
    program.dispatch? position signature =
      (program.chain position).findSome? (program.virtual? signature) :=
  lookup_flatMap _ _ _

theorem mem_dispatchTable_iff :
    (signature, method) ∈ program.dispatchTable position ↔
      program.dispatch? position signature = some method := by
  simp only [dispatchTable, List.mem_filterMap, Option.map_eq_some_iff, Prod.mk.injEq]
  constructor
  · intro listed
    rcases listed with ⟨_, _, _, found, rfl, rfl⟩
    exact found
  · intro found
    have listed := List.mem_map_of_mem (f := Prod.fst) (mem_of_lookup_eq_some found)
    exact ⟨signature, List.mem_eraseDups.mpr listed, method, found, rfl, rfl⟩

theorem lookup_dispatchTable (position : Nat) (signature : Signature) :
    (program.dispatchTable position).lookup signature = program.dispatch? position signature :=
  lookup_eq_of_mem_iff fun _ => mem_dispatchTable_iff

/-- What a call runs is a virtual method of a class on the chain. -/
theorem hasVirtual_of_dispatch? (distinct : program.symbolNames.Nodup)
    (runs : program.dispatch? position signature = some method) :
    method.owner ∈ program.chain position ∧ program.HasVirtual signature method := by
  rw [dispatch?_eq_findSome?] at runs
  rcases List.exists_of_findSome?_eq_some runs with ⟨owner, onChain, found⟩
  rcases (virtual?_eq_some_iff distinct).mp found with ⟨rfl, has⟩
  exact ⟨onChain, has⟩

theorem dispatch?_own (distinct : program.symbolNames.Nodup)
    (inside : method.owner ∈ program.positions) (has : program.HasVirtual signature method) :
    program.dispatch? method.owner signature = some method := by
  rcases chain_eq_cons inside with ⟨ancestors, chain⟩
  rw [dispatch?_eq_findSome?, chain, List.findSome?_cons,
    (virtual?_eq_some_iff distinct).mpr ⟨rfl, has⟩]

end Program

end ClassShrink
