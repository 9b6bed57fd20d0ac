import ClassShrink.Proofs.Lookup
import ClassShrink.Proofs.Remainder

/-! # Call sites

Whatever a call that is left after a pass could run on some class of the
program, is left as well. -/

namespace ClassShrink

open ProgramGraph (ofProgram)

/-! ## Targets of calls -/

/-- It depends on the receiver what a call through a reference runs: the
reference binds to a virtual method, or it leads out of the program. -/
def ProgramGraph.IsVirtualCall (graph : ProgramGraph) (reference : Reference)
    (signature : Signature) : Prop :=
  (∃ owner method, graph.program.position? reference.owner = some owner ∧
    graph.program.lookup owner signature = .found method ∧
    graph.program.HasVirtual signature method) ∨
  ∃ source target name, graph.referenceTarget source reference = .ok target ∧
    graph.symbol? target = some (name, .boundary)

/-- A member reference leads out of the program only by its own name, and only
if nothing in the program has that name. -/
theorem ProgramGraph.named_of_boundary {program : Program}
    (distinct : program.symbolNames.Nodup) {reference : Reference} {signature : Signature}
    (asks : reference.signature? = some signature) {name : String}
    (leaves : (ofProgram program).symbol? (program.referenceTarget reference) =
      some (name, .boundary)) :
    program.referenceTarget reference = .named (signature.key reference.owner) ∧
      signature.key reference.owner ∉ program.symbolNames := by
  rcases Program.referenceTarget_cases asks with ⟨owner, method, found, binds, target⟩ | target
  · rcases Program.memberAt?_of_lookup distinct binds with ⟨member, present, _⟩
    rcases Program.memberAt?_eq_some_iff.mp present with ⟨declaration, declared, has⟩
    have symbol := symbol?_memberNode declared has
    rw [target] at leaves
    have sameKind := congrArg Prod.snd (Option.some.inj (symbol.symm.trans leaves))
    exact absurd sameKind member.kind.symbolKind_ne_boundary
  · rw [target] at leaves
    exact ⟨target, fun defined => symbol?_named_ne_boundary distinct defined name leaves⟩

/-! ## What calls run -/

namespace Saturated

variable {program : Program} {reached : List Nat} (saturated : Saturated program reached)
  {reference : Reference} {signature : Signature}
  {receiver : ClassDecl} {position : Nat} {implementation : MemberPosition}

include saturated

theorem implementation_of_bound {owner : Nat} {method : MemberPosition}
    (asks : reference.signature? = some signature)
    (found : program.position? reference.owner = some owner)
    (binds : program.lookup owner signature = .found method)
    (has : program.HasVirtual signature method)
    (retained : (ofProgram program).nodeAt (program.referenceTarget reference) ∈ reached)
    (declared : program.classes[position]? = some receiver)
    (below : Relation.ReflTransGen program.HasParent receiver.name reference.owner)
    (runs : program.dispatch? position signature = some implementation) :
    program.memberNode implementation ∈ reached := by
  rw [Program.referenceTarget_eq_node asks found binds, ProgramGraph.nodeAt_node] at retained
  have toOwner := Program.inherits_of_names saturated.distinct declared below found
  have toMethod := Program.inherits_of_lookup saturated.distinct
    (Program.mem_positions_of_position? found) binds
  exact saturated.implementation_of_virtual (Program.mem_positions_of_declared declared) runs has
    (toOwner.trans toMethod) retained

theorem implementation_of_external {name : String}
    (asks : reference.signature? = some signature)
    (leaves : (ofProgram program).symbol? (program.referenceTarget reference) =
      some (name, .boundary))
    (pending : ∃ edge ∈ program.pendingEdges, edge.target = program.referenceTarget reference)
    (declared : program.classes[position]? = some receiver)
    (below : Relation.ReflTransGen program.HasParent receiver.name reference.owner)
    (runs : program.dispatch? position signature = some implementation) :
    program.memberNode implementation ∈ reached := by
  rcases ProgramGraph.named_of_boundary saturated.distinct asks leaves with ⟨target, undefined⟩
  rcases Program.eq_or_mem_supertypeNames saturated.distinct declared below with own | above
  · -- A lookup on the receiver itself would have found something.
    have found := (Program.position?_eq_some_iff saturated.distinct reference.owner).mpr
      ⟨receiver, declared, own.symm⟩
    rcases Program.exists_lookup_of_dispatch? saturated.distinct runs with ⟨method, binds⟩
    have bound := Program.referenceTarget_eq_node asks found binds
    cases bound.symm.trans target
  · rcases pending with ⟨edge, pending, sameTarget⟩
    have used := (Program.mem_boundaryNames_iff _).mpr
      ⟨undefined, edge, pending, sameTarget.trans target⟩
    exact saturated.implementation_of_boundary (Program.mem_positions_of_declared declared) runs
      above used

end Saturated

/-- Where a call is left, so is every method that it runs on some class of the
program, with the class that declares it. -/
theorem Shrink.implementations_of_calls_retained {config : Config} {program : Program}
    {outcome : Outcome} (ran : run config program = .ok outcome) {graph : ProgramGraph}
    (built : ProgramGraph.build program config.analysis.parallel = .ok graph) {caller : ClassDecl}
    (callerLeft : caller ∈ outcome.program.classes) {member : Member}
    (memberLeft : member ∈ caller.members) {reference : Reference}
    (refers : reference ∈ member.references) {signature : Signature}
    (asks : reference.signature? = some signature)
    (isVirtualCall : graph.IsVirtualCall reference signature)
    {receiver : ClassDecl} {position : Nat}
    (declared : program.classes[position]? = some receiver)
    (below : Relation.ReflTransGen program.HasParent receiver.name reference.owner)
    {implementation : MemberPosition}
    (runs : (program.dispatchTable position).lookup signature = some implementation) :
    outcome.program.Retains program implementation := by
  rcases runWith_eq_ok ran with ⟨reached, cut⟩
  rcases ProgramGraph.build_eq_ok_iff.mp built with ⟨_, _, rfl⟩
  rw [Program.lookup_dispatchTable] at runs
  rcases cut.original_of_member callerLeft memberLeft with
    ⟨home, index, declaration, original, homeDeclared, has, retained, rfl⟩
  rw [cut.retains_iff_of_dispatch? runs]
  rcases isVirtualCall with
    ⟨owner, method, found, binds, hasMethod⟩ | ⟨source, target, name, resolves, leaves⟩
  · have target := cut.target_of_reference homeDeclared has retained refers
    exact cut.implementation_of_bound asks found binds hasMethod target declared below runs
  · rw [ProgramGraph.referenceTarget_eq_ok cut.resolved (List.mem_of_getElem? homeDeclared)
      (List.mem_of_getElem? has) refers source] at resolves
    cases resolves
    have pending := Program.reference_edge homeDeclared has refers
    exact cut.implementation_of_external asks leaves ⟨_, pending, rfl⟩ declared below runs

/-- The library method is declared outside the program, and the method that runs
by a class that does not have the library's interface. -/
theorem Callback.called_method_retained :
    ∃ graph outcome, ProgramGraph.build program = .ok graph ∧
      Shrink.run config program = .ok outcome ∧
      graph.IsVirtualCall ⟨"Task", some "run", none⟩ ⟨"run", ""⟩ ∧
      (program.dispatchTable 1).lookup ⟨"run", ""⟩ = some ⟨0, 0⟩ ∧
      outcome.program.Retains program ⟨0, 0⟩ := by
  rcases run_eq_ok with ⟨outcome, ran, isLeft⟩
  have built : ProgramGraph.build program = .ok (ofProgram program) :=
    ProgramGraph.build_eq_ok_iff.mpr ⟨by decide +kernel, by decide +kernel, rfl⟩
  have caller : mainClass ∈ outcome.program.classes := by
    rw [isLeft]
    decide
  have leaves : (ofProgram program).IsVirtualCall ⟨"Task", some "run", none⟩ ⟨"run", ""⟩ :=
    .inr ⟨"Main.main:", .named "Task.run:", "Task.run:", rfl, by decide +kernel⟩
  have below : Relation.ReflTransGen program.HasParent "Job" "Task" :=
    .single ⟨jobClass ["Main", "Spare"], by decide, rfl, .inr (by decide)⟩
  have runs : (program.dispatchTable 1).lookup ⟨"run", ""⟩ = some ⟨0, 0⟩ := by decide +kernel
  exact ⟨_, outcome, built, ran, leaves, runs,
    Shrink.implementations_of_calls_retained ran built caller List.mem_cons_self (by decide) rfl
      leaves rfl below runs⟩

end ClassShrink
