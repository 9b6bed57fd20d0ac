import ClassShrink.Proofs.Dispatch

/-! # What a lookup finds

A lookup finds a declaration on the owner or on one of its supertypes, and finds
one whenever a virtual call on the owner runs something. -/

namespace ClassShrink.Program

variable {program : Program} {position owner : Nat} {signature : Signature}
  {method declaration : MemberPosition}

/-! ## Declarations -/

theorem declared?_eq_some_iff (distinct : program.symbolNames.Nodup) :
    program.declared? signature position = some method ↔
      method.owner = position ∧
        ∃ member, program.memberAt? method = some member ∧ member.signature = signature := by
  rcases method with ⟨owner, index⟩
  simp only [declared?, Option.bind_eq_some_iff, Option.map_eq_some_iff, MemberPosition.mk.injEq]
  constructor
  · intro found
    rcases found with ⟨declaration, declared, place, placed, rfl, rfl⟩
    rcases (findIdx?_eq_some_iff_of_nodup (signatures_nodup distinct declared) signature).mp placed
      with ⟨member, has, sameSignature⟩
    exact ⟨rfl, member, memberAt?_eq_some_iff.mpr ⟨declaration, declared, has⟩, sameSignature⟩
  · intro present
    rcases present with ⟨rfl, member, atPlace, sameSignature⟩
    rcases memberAt?_eq_some_iff.mp atPlace with ⟨declaration, declared, has⟩
    exact ⟨declaration, declared, index,
      (findIdx?_eq_some_iff_of_nodup (signatures_nodup distinct declared) signature).mpr
        ⟨member, has, sameSignature⟩, rfl, rfl⟩

theorem declared?_of_hasVirtual (distinct : program.symbolNames.Nodup)
    (has : program.HasVirtual signature method) :
    program.declared? signature method.owner = some method := by
  rcases has with ⟨member, present, _, sameSignature⟩
  exact (declared?_eq_some_iff distinct).mpr ⟨rfl, member, present, sameSignature⟩

/-! ## Walks -/

def lookupPath (program : Program) (owner : Nat) : List Nat :=
  program.chain owner ++ program.interfaceWalk (program.chain owner)

theorem inherits_of_mem_lookupPath (inside : owner ∈ program.positions)
    (onPath : position ∈ program.lookupPath owner) : program.Inherits owner position := by
  rcases List.mem_append.mp onPath with onChain | onWalk
  · exact inherits_of_mem_chain inside onChain
  · clear onPath
    rw [interfaceWalk, Worklist.mem_explore_iff positions_nodup] at onWalk
    induction onWalk with
    | start starting _ =>
        rcases List.mem_flatMap.mp starting with ⟨lower, onChain, interface⟩
        exact (inherits_of_mem_chain inside onChain).tail
          (interfaces_subset_parents lower interface)
    | @step lower _ _ interface _ induction =>
        exact induction.tail (interfaces_subset_parents lower interface)

/-! ## Answers -/

theorem lookup_eq (owner : Nat) (signature : Signature) :
    program.lookup owner signature =
      match (program.lookupPath owner).findSome? (program.declared? signature) with
      | some declaration => .found declaration
      | none =>
          if program.leavesProgram (program.chain owner)
              (program.interfaceWalk (program.chain owner)) then .maybeInherited
          else .missing := rfl

theorem lookup_eq_found_iff :
    program.lookup owner signature = .found declaration ↔
      (program.lookupPath owner).findSome? (program.declared? signature) = some declaration := by
  rw [lookup_eq]
  cases (program.lookupPath owner).findSome? (program.declared? signature) with
  | some found => simp
  | none =>
      simp only [reduceCtorEq, iff_false]
      split <;> simp

theorem memberAt?_of_lookup (distinct : program.symbolNames.Nodup)
    (found : program.lookup owner signature = .found declaration) :
    ∃ member, program.memberAt? declaration = some member ∧ member.signature = signature := by
  rcases List.exists_of_findSome?_eq_some (lookup_eq_found_iff.mp found) with ⟨_, _, declared⟩
  exact ((declared?_eq_some_iff distinct).mp declared).2

theorem inherits_of_lookup (distinct : program.symbolNames.Nodup)
    (inside : owner ∈ program.positions)
    (found : program.lookup owner signature = .found declaration) :
    program.Inherits owner declaration.owner := by
  rcases List.exists_of_findSome?_eq_some (lookup_eq_found_iff.mp found) with
    ⟨position, onPath, declared⟩
  rw [((declared?_eq_some_iff distinct).mp declared).1]
  exact inherits_of_mem_lookupPath inside onPath

theorem exists_lookup_of_dispatch? (distinct : program.symbolNames.Nodup)
    (runs : program.dispatch? position signature = some method) :
    ∃ declaration, program.lookup position signature = .found declaration := by
  rcases hasVirtual_of_dispatch? distinct runs with ⟨onChain, has⟩
  have declared := declared?_of_hasVirtual distinct has
  have onPath : method.owner ∈ program.lookupPath position := List.mem_append_left _ onChain
  cases found : (program.lookupPath position).findSome? (program.declared? signature) with
  | some declaration => exact ⟨declaration, lookup_eq_found_iff.mpr found⟩
  | none =>
      rw [List.findSome?_eq_none_iff.mp found method.owner onPath] at declared
      cases declared

end ClassShrink.Program
