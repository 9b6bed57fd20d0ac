import ClassShrink.Graph.Draft
import ClassShrink.Mark.Basic
import ClassShrink.Proofs.Worklist
import Mathlib.Order.Bounds.Basic

/-! # What marking reaches

Marking reaches exactly what `Reaches` says, on every schedule. Unless it leaves
the graph, that is the least set that holds the roots and the boundary symbols
and is closed under what a symbol keeps alive. The marking loop, which takes one
pending node at a time and leaves out those it has reached before, ends with
that answer on every graph. -/

namespace ClassShrink

theorem EdgeKind.isTraversed_iff (kind : EdgeKind) :
    kind.isTraversed ↔
      kind = .references ∨ kind = .extendsClass ∨ kind = .implementsInterface := by
  cases kind <;> simp [isTraversed]

namespace SymbolGraph

variable {graph : SymbolGraph} {roots : List Nat}

/-! ## Reached nodes -/

@[simp] theorem mem_nodes_iff (node : Nat) : node ∈ graph.nodes ↔ graph.contains node := by
  simp [nodes, contains]

theorem nodes_nodup : graph.nodes.Nodup :=
  List.nodup_range

theorem Reaches.contains {node : Nat} (reaches : graph.Reaches roots node) :
    graph.contains node := by
  cases reaches with
  | root _ inside => exact inside
  | boundary _ inside => exact inside
  | step _ _ inside => exact inside

theorem reaches_iff_worklist (node : Nat) :
    graph.Reaches roots node ↔
      Worklist.Reaches graph.successors graph.nodes (graph.boundaries ++ roots) node := by
  constructor
  · intro reaches
    induction reaches with
    | root isRoot inside =>
        exact .start (List.mem_append_right _ isRoot) ((mem_nodes_iff _).mpr inside)
    | boundary isBoundary inside =>
        exact .start (List.mem_append_left _ isBoundary) ((mem_nodes_iff _).mpr inside)
    | step _ successor inside induction =>
        exact .step induction successor ((mem_nodes_iff _).mpr inside)
  · intro reaches
    induction reaches with
    | start starting inside =>
        rcases List.mem_append.mp starting with isBoundary | isRoot
        · exact .boundary isBoundary ((mem_nodes_iff _).mp inside)
        · exact .root isRoot ((mem_nodes_iff _).mp inside)
    | step _ successor inside induction =>
        exact .step induction successor ((mem_nodes_iff _).mp inside)

def reachedBy (graph : SymbolGraph) (schedule : Schedule) (roots : List Nat) : List Nat :=
  match schedule with
  | .sequential order => graph.visited order roots
  | .parallel => (graph.frontiers roots).flatten

theorem mem_reachedBy_iff (schedule : Schedule) (node : Nat) :
    node ∈ graph.reachedBy schedule roots ↔ graph.Reaches roots node := by
  rw [reaches_iff_worklist]
  cases schedule with
  | sequential order => exact Worklist.mem_explore_iff nodes_nodup _ node
  | parallel => exact Worklist.mem_rounds_iff _ _ node

theorem reachedBy_nodup (schedule : Schedule) : (graph.reachedBy schedule roots).Nodup := by
  cases schedule with
  | sequential order => exact Worklist.explore_nodup nodes_nodup _
  | parallel => exact Worklist.rounds_nodup _ _

/-! ## Answers -/

theorem foreignRoot?_eq_none_iff :
    graph.foreignRoot? roots = none ↔ ∀ root ∈ roots, graph.contains root := by
  simp [foreignRoot?]

theorem dangling?_eq_none_iff (node : Nat) :
    graph.dangling? node = none ↔ ∀ target ∈ graph.successors node, graph.contains target := by
  simp [dangling?]

/-- The answer of marking that went through some nodes and then through others,
of which only the latter may have dangling edges. -/
def answer (graph : SymbolGraph) (before visits : List Nat) : Except ShrinkError (List Nat) :=
  match visits.findSome? graph.dangling? with
  | some error => .error error
  | none => .ok (before ++ visits)

@[simp] theorem answer_nil (before : List Nat) : graph.answer before [] = .ok before := by
  simp [answer]

theorem answer_cons_of_dangling {node : Nat} {error : ShrinkError} (before visits : List Nat)
    (dangles : graph.dangling? node = some error) :
    graph.answer before (node :: visits) = .error error := by
  simp [answer, dangles]

theorem answer_cons_of_resolved {node : Nat} (before visits : List Nat)
    (resolved : graph.dangling? node = none) :
    graph.answer before (node :: visits) = graph.answer (before ++ [node]) visits := by
  simp [answer, resolved]

theorem mark_eq_answer (schedule : Schedule)
    (rootsInside : ∀ root ∈ roots, graph.contains root) :
    graph.mark schedule roots = graph.answer [] (graph.reachedBy schedule roots) := by
  unfold mark
  rw [foreignRoot?_eq_none_iff.mpr rootsInside]
  rfl

theorem answer_eq_ok_iff {visits reached : List Nat} :
    graph.answer [] visits = .ok reached ↔
      (∀ node ∈ visits, ∀ target ∈ graph.successors node, graph.contains target) ∧
        visits = reached := by
  unfold answer
  cases found : visits.findSome? graph.dangling? with
  | none =>
      have inside : ∀ node ∈ visits, ∀ target ∈ graph.successors node,
          graph.contains target := fun node member =>
        (dangling?_eq_none_iff node).mp (List.findSome?_eq_none_iff.mp found node member)
      exact ⟨fun equal => ⟨inside, Except.ok.inj equal⟩, fun holds => congrArg _ holds.2⟩
  | some error =>
      simp only [reduceCtorEq, false_iff, not_and]
      intro inside
      rcases List.exists_of_findSome?_eq_some found with ⟨node, member, dangles⟩
      rw [(dangling?_eq_none_iff node).mpr (inside node member)] at dangles
      cases dangles

theorem mark_eq_ok_iff {schedule : Schedule} {reached : List Nat} :
    graph.mark schedule roots = .ok reached ↔
      (∀ root ∈ roots, graph.contains root) ∧
        (∀ node ∈ reached, ∀ target ∈ graph.successors node, graph.contains target) ∧
          graph.reachedBy schedule roots = reached := by
  by_cases rootsInside : ∀ root ∈ roots, graph.contains root
  · rw [mark_eq_answer schedule rootsInside, answer_eq_ok_iff]
    constructor
    · intro answered
      rcases answered with ⟨inside, rfl⟩
      exact ⟨rootsInside, inside, rfl⟩
    · intro holds
      rcases holds with ⟨_, inside, rfl⟩
      exact ⟨inside, rfl⟩
  · simp only [rootsInside, false_and, iff_false]
    unfold mark
    cases found : graph.foreignRoot? roots with
    | none => exact absurd (foreignRoot?_eq_none_iff.mp found) rootsInside
    | some error => simp

theorem mark_error {schedule : Schedule} {error : ShrinkError}
    (failed : graph.mark schedule roots = .error error) :
    ∃ source target, error = .danglingEdge source target := by
  unfold mark at failed
  cases foreign : graph.foreignRoot? roots with
  | some _ =>
      rcases Option.map_eq_some_iff.mp foreign with ⟨root, _, rfl⟩
      rw [foreign] at failed
      cases failed
      exact ⟨_, _, rfl⟩
  | none =>
      rw [foreign] at failed
      change graph.answer [] (graph.reachedBy schedule roots) = .error error at failed
      unfold answer at failed
      cases found : (graph.reachedBy schedule roots).findSome? graph.dangling? with
      | none =>
          rw [found] at failed
          cases failed
      | some _ =>
          rcases List.exists_of_findSome?_eq_some found with ⟨node, _, dangles⟩
          rcases Option.map_eq_some_iff.mp dangles with ⟨target, _, rfl⟩
          rw [found] at failed
          cases failed
          exact ⟨_, _, rfl⟩

/-! ## The least closed set -/

/-- A set of symbols that holds the roots and the boundary symbols, and whatever
a symbol in it keeps alive. -/
structure Closed (graph : SymbolGraph) (roots : List Nat) (symbols : Set Nat) : Prop where
  roots : ∀ node ∈ roots, node ∈ symbols
  boundaries : ∀ node ∈ graph.boundaries, node ∈ symbols
  edges : ∀ node ∈ symbols, ∀ target kind, (target, kind) ∈ graph.outgoing node →
    kind = .references ∨ kind = .extendsClass ∨ kind = .implementsInterface →
      target ∈ symbols
  overrides : ∀ node ∈ symbols, graph.kind node = .method ∨ graph.kind node = .boundary →
    ∀ target ∈ graph.overrides node, target ∈ symbols
  overriddenBy : ∀ node ∈ symbols, graph.kind node = .method ∨ graph.kind node = .boundary →
    ∀ target ∈ graph.overriddenBy node, target ∈ symbols
  initializer : ∀ node ∈ symbols, graph.kind node = .classDecl →
    ∀ target, graph.staticInitializer? node = some target → target ∈ symbols

theorem mem_followed_iff (node target : Nat) :
    target ∈ graph.followed node ↔
      ∃ kind, (target, kind) ∈ graph.outgoing node ∧ kind.isTraversed := by
  simp [followed]

theorem Closed.successors {symbols : Set Nat} (closed : graph.Closed roots symbols)
    {node : Nat} (member : node ∈ symbols) :
    ∀ target ∈ graph.successors node, target ∈ symbols := by
  intro target successor
  rcases List.mem_append.mp successor with follows | accompanies
  · rcases (mem_followed_iff node target).mp follows with ⟨kind, edge, traversed⟩
    exact closed.edges node member target kind edge ((EdgeKind.isTraversed_iff kind).mp traversed)
  · unfold companions at accompanies
    cases kind : graph.kind node with
    | classDecl =>
        rw [kind] at accompanies
        exact closed.initializer node member kind target (by simpa using accompanies)
    | field => simp [kind] at accompanies
    | method =>
        rw [kind] at accompanies
        rcases List.mem_append.mp accompanies with below | above
        · exact closed.overriddenBy node member (.inl kind) target below
        · exact closed.overrides node member (.inl kind) target above
    | boundary =>
        rw [kind] at accompanies
        rcases List.mem_append.mp accompanies with below | above
        · exact closed.overriddenBy node member (.inr kind) target below
        · exact closed.overrides node member (.inr kind) target above

theorem closed_of_successors {symbols : Set Nat}
    (rootsIn : ∀ node ∈ roots, node ∈ symbols)
    (boundariesIn : ∀ node ∈ graph.boundaries, node ∈ symbols)
    (successorsIn : ∀ node ∈ symbols, ∀ target ∈ graph.successors node, target ∈ symbols) :
    graph.Closed roots symbols where
  roots := rootsIn
  boundaries := boundariesIn
  edges node member target kind edge traversed :=
    successorsIn node member target (List.mem_append_left _
      ((mem_followed_iff node target).mpr
        ⟨kind, edge, (EdgeKind.isTraversed_iff kind).mpr traversed⟩))
  overrides node member kind target above := by
    apply successorsIn node member target
    rcases kind with kind | kind <;> simp [successors, companions, kind, above]
  overriddenBy node member kind target below := by
    apply successorsIn node member target
    rcases kind with kind | kind <;> simp [successors, companions, kind, below]
  initializer node member kind target initializes := by
    apply successorsIn node member target
    simp [successors, companions, kind, initializes]

/-- Marking meets something that is no node: a root, or a successor of a reached
node. -/
def LeavesGraph (graph : SymbolGraph) (roots : List Nat) : Prop :=
  (∃ root ∈ roots, ¬graph.contains root) ∨
    ∃ node, graph.Reaches roots node ∧ ∃ target ∈ graph.successors node, ¬graph.contains target

theorem leavesGraph_iff_not_ok (schedule : Schedule) :
    graph.LeavesGraph roots ↔ ∀ reached, graph.mark schedule roots ≠ .ok reached := by
  constructor
  · intro leaves reached marked
    rcases mark_eq_ok_iff.mp marked with ⟨rootsInside, targetsInside, rfl⟩
    rcases leaves with ⟨root, isRoot, outside⟩ | ⟨node, reaches, target, successor, outside⟩
    · exact outside (rootsInside root isRoot)
    · exact outside (targetsInside node ((mem_reachedBy_iff schedule node).mpr reaches)
        target successor)
  · intro fails
    by_contra stays
    simp only [LeavesGraph, not_or, not_exists, not_and, not_not] at stays
    refine fails (graph.reachedBy schedule roots) (mark_eq_ok_iff.mpr ⟨stays.1, ?_, rfl⟩)
    intro node member
    exact stays.2 node ((mem_reachedBy_iff schedule node).mp member)

theorem isLeast_reached (boundariesInside : ∀ node ∈ graph.boundaries, graph.contains node)
    {schedule : Schedule} {reached : List Nat}
    (marked : graph.mark schedule roots = .ok reached) :
    IsLeast {symbols | graph.Closed roots symbols} {node | node ∈ reached} := by
  rcases mark_eq_ok_iff.mp marked with ⟨rootsInside, targetsInside, rfl⟩
  constructor
  · apply closed_of_successors
    · intro node isRoot
      exact (mem_reachedBy_iff schedule node).mpr (.root isRoot (rootsInside node isRoot))
    · intro node isBoundary
      exact (mem_reachedBy_iff schedule node).mpr
        (.boundary isBoundary (boundariesInside node isBoundary))
    · intro node member target successor
      exact (mem_reachedBy_iff schedule target).mpr
        (.step ((mem_reachedBy_iff schedule node).mp member) successor
          (targetsInside node member target successor))
  · intro symbols closed node member
    have reaches := (mem_reachedBy_iff schedule node).mp member
    clear member
    induction reaches with
    | root isRoot _ => exact closed.roots _ isRoot
    | boundary isBoundary _ => exact closed.boundaries _ isBoundary
    | step _ successor _ induction => exact closed.successors induction _ successor

/-! ## The marking loop -/

/-- How the marking loop goes on from the nodes reached so far and the pending
ones. It takes one pending node at a time. A node that was reached before is
left out; any other is reached now, and its successors that are not reached yet
become pending, unless one of them is no node. -/
inductive Drains (graph : SymbolGraph) (order : WorklistOrder) :
    (reached pending : List Nat) → Except ShrinkError (List Nat) → Prop
  | finished {reached : List Nat} : Drains graph order reached [] (.ok reached)
  | repeated {reached pending : List Nat} {node : Nat} {answer : Except ShrinkError (List Nat)} :
      node ∈ reached → Drains graph order reached pending answer →
        Drains graph order reached (node :: pending) answer
  | dangling {reached pending : List Nat} {node : Nat} {error : ShrinkError} :
      node ∉ reached → graph.dangling? node = some error →
        Drains graph order reached (node :: pending) (.error error)
  | expanded {reached pending : List Nat} {node : Nat} {answer : Except ShrinkError (List Nat)} :
      node ∉ reached → graph.dangling? node = none →
        Drains graph order (reached ++ [node])
          (order.push ((graph.successors node).filter fun target =>
            decide (target ∉ reached ++ [node])) pending) answer →
        Drains graph order reached (node :: pending) answer

theorem Drains.unique {order : WorklistOrder} {reached pending : List Nat}
    {left right : Except ShrinkError (List Nat)}
    (leftDrains : graph.Drains order reached pending left)
    (rightDrains : graph.Drains order reached pending right) : left = right := by
  induction leftDrains with
  | finished =>
      cases rightDrains
      rfl
  | repeated again _ induction =>
      cases rightDrains with
      | repeated _ rest => exact induction rest
      | dangling new _ => exact absurd again new
      | expanded new _ _ => exact absurd again new
  | dangling new dangles =>
      cases rightDrains with
      | repeated again _ => exact absurd again new
      | dangling _ rightDangles =>
          rw [dangles] at rightDangles
          cases rightDangles
          rfl
      | expanded _ resolved _ =>
          rw [dangles] at resolved
          cases resolved
  | expanded new resolved _ induction =>
      cases rightDrains with
      | repeated again _ => exact absurd again new
      | dangling _ dangles =>
          rw [resolved] at dangles
          cases dangles
      | expanded _ _ rest => exact induction rest

theorem Drains.repeated_many {order : WorklistOrder} {reached pending : List Nat}
    {answer : Except ShrinkError (List Nat)} (again : List Nat)
    (allReached : ∀ node ∈ again, node ∈ reached)
    (drains : graph.Drains order reached pending answer) :
    graph.Drains order reached (again ++ pending) answer := by
  induction again with
  | nil => exact drains
  | cons node rest induction =>
      exact .repeated (allReached node (by simp))
        (induction fun other member => allReached other (by simp [member]))

theorem filter_filter_of_imp {keeps widens : Nat → Bool}
    (implies : ∀ node, keeps node → widens node) (nodes : List Nat) :
    (nodes.filter widens).filter keeps = nodes.filter keeps := by
  rw [List.filter_filter]
  apply List.filter_congr
  intro node _
  cases kept : keeps node with
  | false => rfl
  | true => simp [implies node kept]

/-- The loop and the exploration of some nodes have come equally far: the same
nodes are left to be visited, and both have them pending in the same order. -/
structure Alongside (graph : SymbolGraph) (nodes reached loopPending unvisited pending : List Nat) :
    Prop where
  covered : ∀ node, graph.contains node → node ∈ nodes
  distinct : unvisited.Nodup
  unvisited_iff : ∀ node, node ∈ unvisited ↔ node ∈ nodes ∧ node ∉ reached
  inside : ∀ node ∈ loopPending, node ∈ nodes
  samePending : (loopPending.filter fun node => decide (node ∈ unvisited)) =
    pending.filter fun node => decide (node ∈ unvisited)

namespace Alongside

variable {nodes reached loopPending unvisited pending : List Nat} {node : Nat}

theorem reached_of_visited
    (alongside : graph.Alongside nodes reached loopPending unvisited pending)
    (member : node ∈ loopPending) (visited : node ∉ unvisited) : node ∈ reached := by
  by_contra new
  exact visited ((alongside.unvisited_iff node).mpr ⟨alongside.inside node member, new⟩)

theorem skip (alongside : graph.Alongside nodes reached loopPending unvisited (node :: pending))
    (absent : node ∉ unvisited) :
    graph.Alongside nodes reached loopPending unvisited pending where
  covered := alongside.covered
  distinct := alongside.distinct
  unvisited_iff := alongside.unvisited_iff
  inside := alongside.inside
  samePending := by
    rw [alongside.samePending, List.filter_cons_of_neg (by simpa using absent)]

theorem next (alongside : graph.Alongside nodes reached loopPending unvisited (node :: pending))
    (present : node ∈ unvisited) :
    ∃ again rest, loopPending = again ++ node :: rest ∧ (∀ other ∈ again, other ∈ reached) ∧
      graph.Alongside nodes reached rest unvisited pending := by
  have samePending := alongside.samePending
  rw [List.filter_cons_of_pos (by simpa using present)] at samePending
  rcases List.filter_eq_cons_iff.mp samePending with
    ⟨again, rest, rfl, noneUnvisited, _, restPending⟩
  refine ⟨again, rest, rfl, ?_, alongside.covered, alongside.distinct, alongside.unvisited_iff, ?_,
    restPending⟩
  · intro other member
    apply alongside.reached_of_visited (by simp [member])
    simpa using noneUnvisited other member
  · intro other member
    exact alongside.inside other (by simp [member])

theorem expand (alongside : graph.Alongside nodes reached loopPending unvisited pending)
    (resolved : graph.dangling? node = none) (order : WorklistOrder) :
    graph.Alongside nodes (reached ++ [node])
      (order.push ((graph.successors node).filter fun target =>
        decide (target ∉ reached ++ [node])) loopPending)
      (unvisited.erase node) (order.push (graph.successors node) pending) := by
  have stillIff : ∀ other, other ∈ unvisited.erase node ↔
      other ∈ nodes ∧ other ∉ reached ++ [node] := by
    intro other
    rw [alongside.distinct.mem_erase_iff, alongside.unvisited_iff]
    simp only [List.mem_append, List.mem_singleton, not_or]
    tauto
  refine ⟨alongside.covered, alongside.distinct.erase node, stillIff, ?_, ?_⟩
  · intro other member
    rcases (order.mem_push _ _ other).mp member with successor | waiting
    · exact alongside.covered other
        ((dangling?_eq_none_iff node).mp resolved other (List.mem_filter.mp successor).1)
    · exact alongside.inside other waiting
  · have fewer : ∀ other, decide (other ∈ unvisited.erase node) →
        decide (other ∈ unvisited) := by
      intro other left
      exact decide_eq_true (List.mem_of_mem_erase (of_decide_eq_true left))
    have unreached : ∀ other, decide (other ∈ unvisited.erase node) →
        decide (other ∉ reached ++ [node]) := by
      intro other left
      exact decide_eq_true ((stillIff other).mp (of_decide_eq_true left)).2
    rw [order.filter_push, order.filter_push, filter_filter_of_imp unreached,
      ← filter_filter_of_imp fewer loopPending, alongside.samePending,
      filter_filter_of_imp fewer]

end Alongside

theorem drains_drain {order : WorklistOrder} {nodes unvisited pending : List Nat} :
    ∀ {reached loopPending : List Nat},
      graph.Alongside nodes reached loopPending unvisited pending →
      graph.Drains order reached loopPending
        (graph.answer reached (Worklist.drain order graph.successors unvisited pending)) := by
  induction unvisited, pending using Worklist.drain_induction order graph.successors with
  | done unvisited =>
      intro reached loopPending alongside
      have allReached : ∀ node ∈ loopPending, node ∈ reached := by
        intro node member
        apply alongside.reached_of_visited member
        have none := List.filter_eq_nil_iff.mp alongside.samePending node member
        simpa using none
      have drains := Drains.repeated_many loopPending allReached
        (.finished : graph.Drains order reached [] (.ok reached))
      simpa using drains
  | seen unvisited node pending absent induction =>
      intro reached loopPending alongside
      rw [Worklist.drain_cons_of_not_mem pending absent]
      exact induction (alongside.skip absent)
  | fresh unvisited node pending present induction =>
      intro reached loopPending alongside
      have new := ((alongside.unvisited_iff node).mp present).2
      -- The loop has nodes pending several times and skips those it reached meanwhile.
      rcases alongside.next present with ⟨again, rest, rfl, allReached, alongside⟩
      apply Drains.repeated_many again allReached
      rw [Worklist.drain_cons_of_mem pending present]
      cases dangles : graph.dangling? node with
      | some error =>
          rw [answer_cons_of_dangling _ _ dangles]
          exact .dangling new dangles
      | none =>
          rw [answer_cons_of_resolved _ _ dangles]
          exact .expanded new dangles (induction (alongside.expand dangles order))

theorem drains_iff_mark_eq (order : WorklistOrder)
    (boundariesInside : ∀ node ∈ graph.boundaries, graph.contains node)
    (rootsInside : ∀ root ∈ roots, graph.contains root)
    (answer : Except ShrinkError (List Nat)) :
    graph.Drains order [] (order.push (graph.boundaries ++ roots) []) answer ↔
      graph.mark (.sequential order) roots = answer := by
  have drains : graph.Drains order [] (order.push (graph.boundaries ++ roots) [])
      (graph.mark (.sequential order) roots) := by
    rw [mark_eq_answer _ rootsInside]
    refine drains_drain ⟨fun node => (mem_nodes_iff node).mpr, nodes_nodup, by simp, ?_, rfl⟩
    intro node member
    rw [mem_nodes_iff]
    rcases (order.mem_push _ _ node).mp member with starting | impossible
    · rcases List.mem_append.mp starting with isBoundary | isRoot
      · exact boundariesInside node isBoundary
      · exact rootsInside node isRoot
    · cases impossible
  constructor
  · intro answered
    exact drains.unique answered
  · intro equal
    exact equal ▸ drains

/-- Marking with a worklist. The loop ends with its answer on every graph; that
is an error exactly where marking leaves the graph, and otherwise the least
closed set, whichever node is taken next. -/
theorem mark_sequential_isLeast_closed (graph : SymbolGraph) (roots : List Nat)
    (boundariesInside : ∀ node ∈ graph.boundaries, graph.contains node)
    (order : WorklistOrder) :
    ((∀ root ∈ roots, graph.contains root) → ∀ answer,
      graph.Drains order [] (order.push (graph.boundaries ++ roots) []) answer ↔
        graph.mark (.sequential order) roots = answer) ∧
    ((∃ source target,
        graph.mark (.sequential order) roots = .error (.danglingEdge source target)) ↔
      graph.LeavesGraph roots) ∧
    (¬graph.LeavesGraph roots → ∃ reached,
      graph.mark (.sequential order) roots = .ok reached ∧ reached.Nodup ∧
        IsLeast {symbols | graph.Closed roots symbols} {node | node ∈ reached}) ∧
    (∀ depthFirst breadthFirst,
      graph.mark (.sequential .depthFirst) roots = .ok depthFirst →
      graph.mark (.sequential .breadthFirst) roots = .ok breadthFirst →
        ∀ node, node ∈ depthFirst ↔ node ∈ breadthFirst) := by
  refine ⟨fun rootsInside => drains_iff_mark_eq order boundariesInside rootsInside, ?_, ?_, ?_⟩
  · rw [leavesGraph_iff_not_ok (.sequential order)]
    cases marked : graph.mark (.sequential order) roots with
    | ok reached => simp
    | error error =>
        rcases mark_error marked with ⟨source, target, rfl⟩
        simp
  · intro stays
    rw [leavesGraph_iff_not_ok (.sequential order), not_forall] at stays
    rcases stays with ⟨reached, marked⟩
    have marked := not_not.mp marked
    rcases mark_eq_ok_iff.mp marked with ⟨_, _, rfl⟩
    exact ⟨_, marked, Worklist.explore_nodup nodes_nodup _,
      isLeast_reached boundariesInside marked⟩
  · intro depthFirst breadthFirst markedDepthFirst markedBreadthFirst node
    have same := (isLeast_reached boundariesInside markedDepthFirst).unique
      (isLeast_reached boundariesInside markedBreadthFirst)
    exact Set.ext_iff.mp same node

/-- Two classes that refer to each other, the second of them twice, and a method
of the first that overrides a library method. -/
def mutualDraft : Draft :=
  { nodes :=
      [{ name := "A", kind := .classDecl, edges := [(1, .references)] },
        { name := "B", kind := .classDecl, edges := [(0, .extendsClass), (0, .references)] },
        { name := "Library.run:()V", kind := .boundary, overriddenBy := [3] },
        { name := "A.run:()V", kind := .method, edges := [(0, .references)], overrides := [2] },
        { name := "A.unused:()V", kind := .method, edges := [(0, .references)] }] }

theorem mark_mutualDraft_isLeast_closed :
    (∀ node ∈ mutualDraft.view.boundaries, mutualDraft.view.contains node) ∧
      mutualDraft.view.mark (.sequential .breadthFirst) [1] = .ok [2, 1, 3, 0] ∧
      IsLeast {symbols | mutualDraft.view.Closed [1] symbols} {node | node ∈ [2, 1, 3, 0]} := by
  have inside : ∀ node ∈ mutualDraft.view.boundaries, mutualDraft.view.contains node := by
    decide
  have marked : mutualDraft.view.mark (.sequential .breadthFirst) [1] = .ok [2, 1, 3, 0] := by
    decide
  have stays : ¬mutualDraft.view.LeavesGraph [1] := fun leaves =>
    (leavesGraph_iff_not_ok (.sequential .breadthFirst)).mp leaves _ marked
  rcases (mark_sequential_isLeast_closed mutualDraft.view [1] inside .breadthFirst).2.2.1 stays
    with ⟨reached, answered, _, least⟩
  rw [marked] at answered
  cases answered
  exact ⟨inside, marked, least⟩

end SymbolGraph

end ClassShrink
