import ClassShrink.Proofs.Integrity
import ClassShrink.Proofs.Sorting
import Mathlib.Order.Bounds.Basic

/-! # The violation that is reported

A set of nodes that is not intact is reported by the names at the ends of an edge that
leads out of it. Of all such edges, the report names one with the least names, so it is
the same for every order of the set and of the edges. -/

namespace ClassShrink

namespace SymbolGraph

/-! ## The least of some pairs -/

theorem isLeast_of_leastPair? {pairs : List (String × String)} {least : String × String}
    (found : leastPair? pairs = some least) :
    IsLeast {pair | ofLex pair ∈ pairs} (toLex least) := by
  induction pairs generalizing least with
  | nil => cases found
  | cons pair rest induction =>
      have split : {element | ofLex element ∈ pair :: rest} =
          insert (toLex pair) {element | ofLex element ∈ rest} := by
        ext element
        exact List.mem_cons
      rw [split]
      rw [leastPair?] at found
      cases ofRest : leastPair? rest with
      | none =>
          obtain rfl : pair = least := by simpa [ofRest] using found
          obtain rfl := (leastPair?_eq_none_iff rest).mp ofRest
          simp
      | some other =>
          have smaller : toLex least = min (toLex pair) (toLex other) := by
            simp only [ofRest, Option.some.injEq, textPairLe_iff] at found
            rw [min_def, ← found]
            exact apply_ite toLex _ _ _
          rw [smaller]
          exact (induction ofRest).insert _

/-! ## Edges out of a set -/

/-- An edge that marking follows leads from one node, which is in the set, to another,
which is not. -/
def Escapes (graph : SymbolGraph) (reached : List Nat) (source target : Nat) : Prop :=
  source ∈ reached ∧ target ∉ reached ∧
    ∃ kind, (target, kind) ∈ graph.outgoing source ∧
      (kind = .references ∨ kind = .extendsClass ∨ kind = .implementsInterface)

/-- The names at the ends of edges out of the set, in lexicographic order. An end that is
no node of the graph is written as a number. -/
def escapingNames (graph : SymbolGraph) (reached : List Nat) : Set (String ×ₗ String) :=
  {names | ∃ source target, graph.Escapes reached source target ∧
    names = toLex (graph.name source,
      if graph.contains target then graph.name target else graph.handle target)}

variable {graph : SymbolGraph} {reached : List Nat}

theorem mem_violations_iff (names : String × String) :
    names ∈ graph.violations reached ↔ toLex names ∈ graph.escapingNames reached := by
  constructor
  · intro violates
    rcases List.mem_flatMap.mp violates with ⟨source, isReached, listed⟩
    rcases List.mem_map.mp listed with ⟨target, escapes, rfl⟩
    rcases List.mem_filter.mp escapes with ⟨followed, outside⟩
    rcases (mem_followed_iff source target).mp followed with ⟨kind, edge, traversed⟩
    exact ⟨source, target, ⟨isReached, of_decide_eq_true outside, kind, edge,
      kind.isTraversed_iff.mp traversed⟩, rfl⟩
  · intro escaping
    rcases escaping with ⟨source, target, ⟨isReached, outside, kind, edge, traversed⟩, named⟩
    obtain rfl : names = (graph.name source, graph.describe target) := named
    refine List.mem_flatMap.mpr ⟨source, isReached, List.mem_map.mpr ⟨target, ?_, rfl⟩⟩
    refine List.mem_filter.mpr ⟨?_, decide_eq_true outside⟩
    exact (mem_followed_iff source target).mpr ⟨kind, edge, kind.isTraversed_iff.mpr traversed⟩

theorem leastPair?_eq_some_iff {pairs : List (String × String)} {least : String × String} :
    leastPair? pairs = some least ↔ IsLeast {pair | ofLex pair ∈ pairs} (toLex least) := by
  constructor
  · exact isLeast_of_leastPair?
  · intro isLeast
    cases found : leastPair? pairs with
    | none =>
        obtain rfl := (leastPair?_eq_none_iff pairs).mp found
        exact absurd isLeast.1 List.not_mem_nil
    | some other =>
        exact congrArg some (toLex.injective ((isLeast_of_leastPair? found).unique isLeast))

theorem violation?_eq_some_iff {error : ShrinkError} :
    graph.violation? reached = some error ↔
      ∃ source target, error = .integrityViolation source target ∧
        IsLeast (graph.escapingNames reached) (toLex (source, target)) := by
  have same : {names | ofLex names ∈ graph.violations reached} = graph.escapingNames reached := by
    ext names
    exact mem_violations_iff (ofLex names)
  rw [violation?, Option.map_eq_some_iff]
  constructor
  · intro reported
    rcases reported with ⟨⟨source, target⟩, least, rfl⟩
    exact ⟨source, target, rfl, same ▸ leastPair?_eq_some_iff.mp least⟩
  · intro isLeast
    rcases isLeast with ⟨source, target, rfl, least⟩
    exact ⟨(source, target), leastPair?_eq_some_iff.mpr (same ▸ least), rfl⟩

theorem escapingNames_congr {outgoing : Nat → List (Nat × EdgeKind)} {again : List Nat}
    (sameEdges : ∀ node, (outgoing node).Perm (graph.outgoing node))
    (sameNodes : ∀ node, node ∈ again ↔ node ∈ reached) :
    { graph with outgoing }.escapingNames again = graph.escapingNames reached := by
  ext names
  simp only [escapingNames, Escapes, Set.mem_ofPred_eq, sameNodes, (sameEdges _).mem_iff]
  rfl

/-- A set passes the check exactly if no edge of the followed kinds leads out of it.
Otherwise the error names the edge with the least names at its ends, of all that lead out
of the set, to nodes or out of the graph. Neither the order of the set nor that of the
edges of a node has an influence. -/
theorem violation?_least_of_all (graph : SymbolGraph) (reached : List Nat) :
    (graph.violation? reached = none ↔
      ∀ source ∈ reached, ∀ target kind, (target, kind) ∈ graph.outgoing source →
        kind = .references ∨ kind = .extendsClass ∨ kind = .implementsInterface →
          target ∈ reached) ∧
    (∀ error, graph.violation? reached = some error ↔
      ∃ source target, error = .integrityViolation source target ∧
        IsLeast (graph.escapingNames reached) (toLex (source, target))) ∧
    ∀ (outgoing : Nat → List (Nat × EdgeKind)) (again : List Nat),
      (∀ node, (outgoing node).Perm (graph.outgoing node)) →
      (∀ node, node ∈ again ↔ node ∈ reached) →
      { graph with outgoing }.violation? again = graph.violation? reached := by
  refine ⟨?_, fun error => violation?_eq_some_iff, ?_⟩
  · simp only [violation?_eq_none_iff, mem_followed_iff, EdgeKind.isTraversed_iff,
      forall_exists_index, and_imp]
  · intro outgoing again sameEdges sameNodes
    ext error
    rw [violation?_eq_some_iff, violation?_eq_some_iff, escapingNames_congr sameEdges sameNodes]

end SymbolGraph

namespace Namesakes

/-! Two classes with one name. An edge of the first leads out of the graph, one of the
second to a third class. -/

def graph : SymbolGraph :=
  let classes := ((({} : Draft).addClass "Same").addClass "Same").addClass "Gone"
  ((classes.addEdge 0 9 .references).addEdge 1 2 .extendsClass).addEdge 1 7 .annotatedBy |>.view

/-- The number comes before the name, also with both classes and all edges in reverse
order. -/
theorem least_violation_reported :
    graph.violation? [0, 1] = some (.integrityViolation "Same" "9") ∧
      { graph with outgoing := fun node => (graph.outgoing node).reverse }.violation? [1, 0] =
        some (.integrityViolation "Same" "9") ∧
      IsLeast (graph.escapingNames [0, 1]) (toLex ("Same", "9")) := by
  have reported : graph.violation? [0, 1] = some (.integrityViolation "Same" "9") := by
    decide +kernel
  rcases SymbolGraph.violation?_least_of_all graph [0, 1] with ⟨_, least, reordered⟩
  have same := reordered (fun node => (graph.outgoing node).reverse) [1, 0]
    (fun node => List.reverse_perm _) (fun node => by simp [or_comm])
  rcases (least _).mp reported with ⟨source, target, names, isLeast⟩
  cases names
  exact ⟨reported, same.trans reported, isLeast⟩

end Namesakes

end ClassShrink
