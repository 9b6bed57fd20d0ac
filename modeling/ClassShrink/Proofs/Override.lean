import ClassShrink.Override.Pairs
import ClassShrink.Proofs.Dispatch
import ClassShrink.Proofs.Sorting

/-! # Which methods override which

A method is paired with a virtual method of a supertype, or with a boundary
symbol named like one, exactly where a call on some class with that supertype
may run it. -/

namespace ClassShrink

namespace Program

variable {program : Program}

/-! ## Pairs of methods -/

theorem mem_methodPairsAt_iff {position : Nat} {overrider overridden : MemberPosition} :
    (overrider, overridden) ∈ program.methodPairsAt position ↔
      ∃ signature, program.dispatch? position signature = some overrider ∧
        program.HasVirtual signature overridden ∧
        overridden.owner ∈ program.supertypes position ∧ overrider.owner ≠ overridden.owner := by
  simp only [methodPairsAt, List.mem_flatMap, List.mem_filterMap, Prod.exists,
    lookup_dispatchTable]
  constructor
  · intro listed
    rcases listed with ⟨supertype, isSupertype, signature, other, virtualMember, paired⟩
    rcases mem_virtualMethods_iff.mp virtualMember with ⟨rfl, has⟩
    cases runs : program.dispatch? position signature with
    | none => simp [runs] at paired
    | some method =>
        by_cases sameOwner : method.owner = other.owner
        · simp [runs, sameOwner] at paired
        · simp only [runs, sameOwner, if_false, Option.some.injEq, Prod.mk.injEq] at paired
          rcases paired with ⟨rfl, rfl⟩
          exact ⟨signature, runs, has, isSupertype, sameOwner⟩
  · intro overrides
    rcases overrides with ⟨signature, runs, has, isSupertype, apart⟩
    refine ⟨overridden.owner, isSupertype, signature, overridden,
      mem_virtualMethods_iff.mpr ⟨rfl, has⟩, ?_⟩
    simp [runs, apart]

theorem mem_methodPairs_iff {overrider overridden : MemberPosition} :
    (overrider, overridden) ∈ program.methodPairs ↔
      ∃ position ∈ program.positions, (overrider, overridden) ∈ program.methodPairsAt position := by
  simp only [methodPairs, mem_ascending_iff, List.mem_flatMap]

/-! ## Pairs with library methods -/

theorem mem_libraryPairsAt_iff {boundary? : String → Option Nat} {position : Nat}
    {overrider : MemberPosition} {boundary : Nat} :
    (overrider, boundary) ∈ program.libraryPairsAt boundary? position ↔
      ∃ signature, program.dispatch? position signature = some overrider ∧
        ∃ owner ∈ program.supertypeNames position,
          boundary? (signature.key owner) = some boundary := by
  simp only [libraryPairsAt, List.mem_flatMap, List.mem_filterMap, Prod.exists,
    mem_dispatchTable_iff, Option.map_eq_some_iff, Prod.mk.injEq]
  constructor
  · intro listed
    rcases listed with ⟨owner, isSupertype, signature, method, runs, found, named, rfl, rfl⟩
    exact ⟨signature, runs, owner, isSupertype, named⟩
  · intro overrides
    rcases overrides with ⟨signature, runs, owner, isSupertype, named⟩
    exact ⟨owner, isSupertype, signature, overrider, runs, boundary, named, rfl, rfl⟩

theorem mem_libraryPairs_iff {boundary? : String → Option Nat} {overrider : MemberPosition}
    {boundary : Nat} :
    (overrider, boundary) ∈ program.libraryPairs boundary? ↔
      ∃ position ∈ program.positions,
        (overrider, boundary) ∈ program.libraryPairsAt boundary? position := by
  simp only [libraryPairs, mem_ascending_iff, List.mem_flatMap]

end Program

end ClassShrink
