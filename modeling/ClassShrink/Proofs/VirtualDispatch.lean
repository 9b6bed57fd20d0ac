import ClassShrink.Proofs.Correspondence

/-! # Virtual dispatch after a pass

A virtual call on a class that is left runs what it ran before, or nothing. It
never runs the method of another class instead. -/

namespace ClassShrink

namespace Cut

variable {program left : Program} {reached : List Nat} (cut : Cut program left reached)
  {position leftPosition : Nat} {signature : Signature} {implementation : MemberPosition}

include cut

theorem dispatch?_related (same : program.SameClass left position leftPosition)
    (signature : Signature) :
    Option.Rel (program.SameMember left)
      ((program.dispatch? position signature).filter (isReached program reached))
      (left.dispatch? leftPosition signature) := by
  have ⟨_, _, declared, _⟩ := same
  have inside := Program.mem_positions_of_declared declared
  have first : Option.Rel (program.SameMember left) _
      ((left.chain leftPosition).findSome? (left.virtual? signature)) :=
    findSome?_related (fun _ _ sameHere => cut.virtual?_related sameHere)
      (cut.sameHierarchy.chain same)
  rw [Program.dispatch?_eq_findSome?, Program.dispatch?_eq_findSome?, findSome?_filter]
  · exact first
  · -- A retained method anywhere on the chain keeps the first one.
    intro nearest runs upper onChain method isVirtual retained
    rw [← Program.dispatch?_eq_findSome?] at runs
    rcases (Program.virtual?_eq_some_iff cut.distinct).mp isVirtual with ⟨rfl, has⟩
    exact isReached_iff.mpr (cut.implementation_of_virtual inside runs has
      (Program.inherits_of_mem_chain inside onChain) (isReached_iff.mp retained))

theorem dispatch?_of_retained (same : program.SameClass left position leftPosition)
    (runs : program.dispatch? position signature = some implementation)
    (retained : left.Retains program implementation) :
    ∃ kept, left.dispatch? leftPosition signature = some kept ∧
      program.SameMember left implementation kept := by
  have related := cut.dispatch?_related same signature
  have reachedHere := isReached_iff.mpr ((cut.retains_iff_of_dispatch? runs).mp retained)
  rw [runs, Option.filter_some_pos reachedHere] at related
  rcases optionRel_cases related with ⟨impossible, _⟩ | ⟨_, kept, isSame, leftRuns, sameMember⟩
  · cases impossible
  · cases isSame
    exact ⟨kept, leftRuns, sameMember⟩

theorem dispatch?_of_removed (same : program.SameClass left position leftPosition)
    (removed : ∀ implementation, program.dispatch? position signature = some implementation →
      ¬left.Retains program implementation) :
    left.dispatch? leftPosition signature = none := by
  have absent : (program.dispatch? position signature).filter (isReached program reached) =
      none := by
    rw [Option.filter_eq_none_iff]
    intro implementation runs reachedHere
    exact removed implementation runs
      ((cut.retains_iff_of_dispatch? runs).mpr (isReached_iff.mp reachedHere))
  have related := cut.dispatch?_related same signature
  rw [absent] at related
  rcases optionRel_cases related with ⟨_, leftAbsent⟩ | ⟨_, _, impossible, _⟩
  · exact leftAbsent
  · cases impossible

theorem implementation_retained {declaration upper : ClassDecl}
    (declared : program.classes[position]? = some declaration) {method : MemberPosition}
    (upperDeclared : program.classes[method.owner]? = some upper)
    (below : Relation.ReflTransGen program.HasParent declaration.name upper.name)
    (has : program.HasVirtual signature method) (retained : left.Retains program method)
    (runs : program.dispatch? position signature = some implementation) :
    left.Retains program implementation := by
  have ⟨_, present, _⟩ := has
  have found := (Program.position?_eq_some_iff cut.distinct upper.name).mpr
    ⟨upper, upperDeclared, rfl⟩
  rw [cut.retains_iff present] at retained
  rw [cut.retains_iff_of_dispatch? runs]
  exact cut.implementation_of_virtual (Program.mem_positions_of_declared declared) runs has
    (Program.inherits_of_names cut.distinct declared below found) retained

end Cut

/-- A class that is left dispatches a call to the member to which it dispatched
it in the whole program, if that is left, and otherwise to none. It is left if
the class or a supertype has a virtual method with the called signature that is
left. -/
theorem Shrink.remainder_keeps_dispatch {config : Config} {program : Program} {outcome : Outcome}
    (ran : run config program = .ok outcome) {position leftPosition : Nat}
    (same : program.SameClass outcome.program position leftPosition) (signature : Signature) :
    (∀ implementation, (program.dispatchTable position).lookup signature = some implementation →
      outcome.program.Retains program implementation →
        ∃ kept, (outcome.program.dispatchTable leftPosition).lookup signature = some kept ∧
          program.SameMember outcome.program implementation kept) ∧
    ((∀ implementation, (program.dispatchTable position).lookup signature = some implementation →
      ¬outcome.program.Retains program implementation) →
        (outcome.program.dispatchTable leftPosition).lookup signature = none) ∧
    ∀ declaration upper method,
      program.classes[position]? = some declaration →
      program.classes[method.owner]? = some upper →
      Relation.ReflTransGen program.HasParent declaration.name upper.name →
      program.HasVirtual signature method → outcome.program.Retains program method →
      ∀ implementation, (program.dispatchTable position).lookup signature = some implementation →
        outcome.program.Retains program implementation := by
  rcases runWith_eq_ok ran with ⟨reached, cut⟩
  simp only [Program.lookup_dispatchTable]
  refine ⟨?_, ?_, ?_⟩
  · intro implementation runs retained
    exact cut.dispatch?_of_retained same runs retained
  · intro removed
    exact cut.dispatch?_of_removed same removed
  · intro declaration upper method declared upperDeclared below has retained implementation runs
    exact cut.implementation_retained declared upperDeclared below has retained runs

/-- One inherited method is called and left, another is neither. -/
theorem Callback.dispatch_kept :
    ∃ outcome, Shrink.run config program = .ok outcome ∧
      program.SameClass outcome.program 1 1 ∧
      (program.dispatchTable 1).lookup ⟨"run", ""⟩ = some ⟨0, 0⟩ ∧
      (∃ kept, (outcome.program.dispatchTable 1).lookup ⟨"run", ""⟩ = some kept ∧
        program.SameMember outcome.program ⟨0, 0⟩ kept) ∧
      (program.dispatchTable 1).lookup ⟨"stop", ""⟩ = some ⟨0, 1⟩ ∧
      ¬outcome.program.Retains program ⟨0, 1⟩ := by
  rcases run_eq_ok with ⟨outcome, ran, isLeft⟩
  have same : program.SameClass outcome.program 1 1 := by
    rw [isLeft]
    exact ⟨jobClass ["Main", "Spare"], jobClass ["Main"], rfl, rfl, rfl⟩
  have retained : outcome.program.Retains program ⟨0, 0⟩ := by
    rw [isLeft]
    exact ⟨⟨0, 0⟩, ⟨baseClass ["run", "stop"], baseClass ["run"], rfl, rfl, rfl⟩,
      _, _, rfl, rfl, rfl⟩
  have runs : (program.dispatchTable 1).lookup ⟨"run", ""⟩ = some ⟨0, 0⟩ := by decide +kernel
  have stops : (program.dispatchTable 1).lookup ⟨"stop", ""⟩ = some ⟨0, 1⟩ := by decide +kernel
  have stopsLeft : (left.dispatchTable 1).lookup ⟨"stop", ""⟩ = none := by decide +kernel
  refine ⟨outcome, ran, same, runs,
    (Shrink.remainder_keeps_dispatch ran same ⟨"run", ""⟩).1 _ runs retained, stops, ?_⟩
  intro stopRetained
  rcases (Shrink.remainder_keeps_dispatch ran same ⟨"stop", ""⟩).1 _ stops stopRetained with
    ⟨kept, found, _⟩
  rw [isLeft, stopsLeft] at found
  cases found

end ClassShrink
