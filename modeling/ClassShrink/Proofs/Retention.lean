import ClassShrink.Proofs.Mark
import ClassShrink.Proofs.Sweep
import ClassShrink.Shrink

/-! # What a pass retains

What a successful pass leaves of a program is cut out by a set of nodes that is
closed under all that a symbol keeps alive. From that, a retained member has its
class, a retained class its parents, and a retained virtual method whatever
may run in its place. -/

namespace ClassShrink

open ProgramGraph (ofProgram)

/-! ## Passes -/

/-- A set of nodes that marking may reach in the graph of a program. -/
structure Saturated (program : Program) (reached : List Nat) : Prop where
  distinct : program.symbolNames.Nodup
  resolved : program.firstUnresolved? = none
  boundaries : ∀ node ∈ (ofProgram program).view.boundaries, node ∈ reached
  successors : ∀ node ∈ reached, ∀ target ∈ (ofProgram program).view.successors node,
    target ∈ reached

theorem Saturated.of_mark {program : Program} {schedule : Schedule} {roots reached : List Nat}
    (distinct : program.symbolNames.Nodup) (resolved : program.firstUnresolved? = none)
    (marked : (ofProgram program).view.mark schedule roots = .ok reached) :
    Saturated program reached := by
  have closed := (SymbolGraph.isLeast_reached ProgramGraph.boundaries_inside marked).1
  exact
    { distinct, resolved
      boundaries := closed.boundaries
      successors := fun _ member => closed.successors member }

/-- A program and what is left of it after a pass that reached such a set. -/
structure Cut (program left : Program) (reached : List Nat) : Prop
    extends Saturated program reached where
  eq_remainder : left = program.remainder reached

private theorem bind_eq_ok {α β ε : Type} {first : Except ε α} {next : α → Except ε β}
    {result : β} (succeeds : first >>= next = .ok result) :
    ∃ value, first = .ok value ∧ next value = .ok result := by
  cases first with
  | error error => cases succeeds
  | ok value => exact ⟨value, rfl, succeeds⟩

theorem Shrink.runWith_eq_ok {config : Config} {extra : List KeepRule} {program : Program}
    {outcome : Outcome} (ran : runWith config extra program = .ok outcome) :
    ∃ reached, Cut program outcome.program reached := by
  unfold runWith at ran
  rcases bind_eq_ok ran with ⟨graph, built, ran⟩
  rcases bind_eq_ok ran with ⟨reached, marked, ran⟩
  rcases bind_eq_ok ran with ⟨swept, sweeps, ran⟩
  rcases ProgramGraph.build_eq_ok_iff.mp built with ⟨distinct, resolved, rfl⟩
  have left : swept.program = program.remainder reached := by
    rw [ProgramGraph.sweep_eq distinct] at sweeps
    cases violated : (ofProgram program).view.violation? reached with
    | some error => simp [violated] at sweeps
    | none =>
        rw [violated] at sweeps
        cases sweeps
        rfl
  refine ⟨reached, .of_mark distinct resolved marked, ?_⟩
  cases ran
  exact left

namespace Callback

/-! A pass over a program whose entry point makes an object of one class and
calls a library method on it, which that class inherits from another. -/

def mainClass : ClassDecl :=
  { name := "Main"
    members :=
      [{ kind := .method, name := "main", descriptor := "()", isStatic := true
         references := [{ owner := "Job" }, { owner := "Task", name := some "run" }] }] }

def jobClass (tags : List String) : ClassDecl :=
  { name := "Job", superclass := some "Base", interfaces := ["Task"], annotations := tags }

def baseClass (methods : List String) : ClassDecl :=
  { name := "Base"
    members := methods.map fun name => { kind := .method, name, descriptor := "" } }

def program : Program :=
  ⟨[baseClass ["run", "stop"], jobClass ["Main", "Spare"], { name := "Spare" }, mainClass]⟩

def config : Config :=
  { entryPoints := ["Main.main"] }

def left : Program :=
  ⟨[baseClass ["run"], jobClass ["Main"], mainClass]⟩

theorem run_eq_ok :
    ∃ outcome, Shrink.run config program = .ok outcome ∧ outcome.program = left := by
  have ran : (Shrink.run config program).map Outcome.program = .ok left := by decide +kernel
  cases answer : Shrink.run config program with
  | error error =>
      rw [answer] at ran
      cases ran
  | ok outcome =>
      rw [answer] at ran
      exact ⟨outcome, rfl, Except.ok.inj ran⟩

end Callback

namespace Saturated

variable {program : Program} {reached : List Nat} (saturated : Saturated program reached)
  {position index : Nat} {declaration : ClassDecl} {member : Member}

include saturated

/-! ## Edges -/

theorem target_of_pending {edge : PendingEdge} (pending : edge ∈ program.pendingEdges)
    (traversed : edge.kind.isTraversed) (source : edge.source ∈ reached) :
    (ofProgram program).nodeAt edge.target ∈ reached :=
  saturated.successors _ source _
    (List.mem_append_left _ (ProgramGraph.followed_of_pending pending traversed))

theorem owner_of_member (declared : program.classes[position]? = some declaration)
    (has : declaration.members[index]? = some member)
    (retained : program.memberNode ⟨position, index⟩ ∈ reached) :
    program.classNode position ∈ reached :=
  saturated.target_of_pending (Program.owner_edge declared has) rfl retained

theorem parentTarget_of_class (declared : program.classes[position]? = some declaration)
    (retained : program.classNode position ∈ reached) {name : String}
    (parent : declaration.superclass = some name ∨ name ∈ declaration.interfaces) :
    (ofProgram program).nodeAt (program.classTarget name) ∈ reached := by
  rcases Program.parent_edge declared parent with ⟨kind, traversed, pending⟩
  exact saturated.target_of_pending pending traversed retained

theorem target_of_reference (declared : program.classes[position]? = some declaration)
    (has : declaration.members[index]? = some member)
    (retained : program.memberNode ⟨position, index⟩ ∈ reached) {reference : Reference}
    (refers : reference ∈ member.references) :
    (ofProgram program).nodeAt (program.referenceTarget reference) ∈ reached :=
  saturated.target_of_pending (Program.reference_edge declared has refers) rfl retained

theorem owner_of_reference (declared : program.classes[position]? = some declaration)
    (has : declaration.members[index]? = some member)
    (retained : program.memberNode ⟨position, index⟩ ∈ reached) {reference : Reference}
    (refers : reference ∈ member.references) (isMember : reference.name.isSome) {owner : Nat}
    (found : program.position? reference.owner = some owner) :
    program.classNode owner ∈ reached :=
  saturated.target_of_pending
    (Program.referenceOwner_edge declared has refers isMember found) rfl retained

/-! ## Overriding -/

theorem companion_of_virtual {signature : Signature} {method : MemberPosition}
    (has : program.HasVirtual signature method) (retained : program.memberNode method ∈ reached)
    {other : Nat}
    (paired : (program.memberNode method, other) ∈ (ofProgram program).overridePairs ∨
      (other, program.memberNode method) ∈ (ofProgram program).overridePairs) :
    other ∈ reached := by
  have kind : (ofProgram program).view.kind (program.memberNode method) = .method :=
    ProgramGraph.kind_of_virtual has
  apply saturated.successors _ retained
  apply List.mem_append_right
  rw [SymbolGraph.companions, kind, List.mem_append, ProgramGraph.mem_overriddenBy_iff,
    ProgramGraph.mem_overrides_iff]
  exact paired.symm

theorem overrider_of_boundary {overrider boundary : Nat}
    (isBoundary : boundary ∈ (ofProgram program).view.boundaries)
    (paired : (overrider, boundary) ∈ (ofProgram program).overridePairs) :
    overrider ∈ reached := by
  rcases (ProgramGraph.mem_boundaries_iff boundary).mp isBoundary with ⟨offset, within, rfl⟩
  apply saturated.successors _ (saturated.boundaries _ isBoundary)
  apply List.mem_append_right
  rw [SymbolGraph.companions, ProgramGraph.kind_boundary within, List.mem_append,
    ProgramGraph.mem_overriddenBy_iff]
  exact .inl paired

/-- If a class or one of its supertypes has a retained virtual method, then the
method that a call of it on the class runs is retained. -/
theorem implementation_of_virtual (inside : position ∈ program.positions)
    {signature : Signature} {implementation method : MemberPosition}
    (runs : program.dispatch? position signature = some implementation)
    (has : program.HasVirtual signature method)
    (above : program.Inherits position method.owner)
    (retained : program.memberNode method ∈ reached) :
    program.memberNode implementation ∈ reached := by
  have implements := (Program.hasVirtual_of_dispatch? saturated.distinct runs).2
  -- Only methods of different classes are paired. On one class the two are equal.
  by_cases sameOwner : implementation.owner = method.owner
  · rw [implements.unique saturated.distinct has sameOwner]
    exact retained
  · rcases above.eq_or_mem_supertypes inside with own | inherited
    · subst own
      rw [Program.dispatch?_own saturated.distinct inside has] at runs
      cases runs
      exact retained
    · have paired : (implementation, method) ∈ program.methodPairsAt position :=
        Program.mem_methodPairsAt_iff.mpr ⟨signature, runs, has, inherited, sameOwner⟩
      have listed := Program.mem_methodPairs_iff.mpr ⟨position, inside, paired⟩
      exact saturated.companion_of_virtual has retained (.inr
        ((Program.mem_overridePairs_iff saturated.distinct).mpr
          (.inl ⟨implementation, method, listed, rfl, rfl⟩)))

/-- If a boundary symbol is named like a method of a supertype of a class, then
the method that a call of it on the class runs is retained. -/
theorem implementation_of_boundary (inside : position ∈ program.positions)
    {signature : Signature} {implementation : MemberPosition}
    (runs : program.dispatch? position signature = some implementation) {owner : String}
    (above : owner ∈ program.supertypeNames position)
    (isBoundary : signature.key owner ∈ program.boundaryNames) :
    program.memberNode implementation ∈ reached := by
  have undefined := ((Program.mem_boundaryNames_iff _).mp isBoundary).1
  have found : (ofProgram program).boundary? (signature.key owner) =
      some ((ofProgram program).nodeAt (.named (signature.key owner))) :=
    ProgramGraph.boundary?_eq_some undefined isBoundary
  have paired := Program.mem_libraryPairsAt_iff.mpr ⟨signature, runs, owner, above, found⟩
  have listed := Program.mem_libraryPairs_iff.mpr ⟨position, inside, paired⟩
  refine saturated.overrider_of_boundary ?_
    ((Program.mem_overridePairs_iff saturated.distinct).mpr (.inr ⟨implementation, listed, rfl⟩))
  exact (ProgramGraph.mem_boundaries_iff _).mpr
    ⟨_, List.idxOf_lt_length_of_mem isBoundary, ProgramGraph.nodeAt_boundary undefined⟩

end Saturated

end ClassShrink
