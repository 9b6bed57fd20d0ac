import ClassShrink.Proofs.Mark
import Mathlib.Data.List.Dedup

/-! # Marking by many workers

In a round of parallel marking, every node of the frontier has a worker. The
workers share the set of reached nodes: each puts the successors of its node into
it, one after another, and notes those that were not there before. The notes of
all workers make up the next frontier. Which worker comes first to a node is left
open. In every case marking ends, no node is in two frontiers, and the answer is
that of marking with a worklist. -/

namespace ClassShrink.SymbolGraph

/-! ## Rounds -/

/-- A worker in a round: its node, the successors that it has not come to yet,
and those that it was the first to put into the reached set. -/
structure Worker where
  node : Nat
  waiting : List Nat
  fresh : List Nat

/-- A worker at the beginning. If a successor of its node is no node, then it
fails and puts in nothing. -/
def worker (graph : SymbolGraph) (node : Nat) : Worker :=
  { node
    waiting :=
      match graph.dangling? node with
      | some _ => []
      | none => graph.successors node
    fresh := [] }

/-- How far marking in rounds has come: the nodes of the frontiers before, the
reached set, and the workers of the present frontier. -/
structure Progress where
  expanded : List Nat
  reached : List Nat
  workers : List Worker

namespace Progress

def frontier (progress : Progress) : List Nat :=
  progress.workers.map Worker.node

def fresh (progress : Progress) : List Nat :=
  progress.workers.flatMap Worker.fresh

end Progress

def firstRound (graph : SymbolGraph) (seeds : List Nat) : Progress :=
  { expanded := []
    reached := seeds.eraseDups
    workers := seeds.eraseDups.map graph.worker }

/-- What may happen next. Any worker tests the reached set for its next successor
and puts it in, as one action; or all workers are done, none has failed, and
their notes become the next frontier. -/
inductive Step (graph : SymbolGraph) : Progress → Progress → Prop
  | inserted {expanded reached waiting fresh : List Nat} {before after : List Worker}
      {node target : Nat} :
      target ∉ reached →
        Step graph
          ⟨expanded, reached, before ++ ⟨node, target :: waiting, fresh⟩ :: after⟩
          ⟨expanded, reached ++ [target], before ++ ⟨node, waiting, fresh ++ [target]⟩ :: after⟩
  | repeated {expanded reached waiting fresh : List Nat} {before after : List Worker}
      {node target : Nat} :
      target ∈ reached →
        Step graph
          ⟨expanded, reached, before ++ ⟨node, target :: waiting, fresh⟩ :: after⟩
          ⟨expanded, reached, before ++ ⟨node, waiting, fresh⟩ :: after⟩
  | nextRound {progress : Progress} :
      progress.workers ≠ [] →
      (∀ worker ∈ progress.workers, worker.waiting = []) →
      (∀ worker ∈ progress.workers, graph.dangling? worker.node = none) →
        Step graph progress
          ⟨progress.expanded ++ progress.frontier, progress.reached,
            progress.fresh.map graph.worker⟩

/-- The answer with which marking ends: the reached set if the frontier is empty,
and otherwise the error of a worker that failed, whether or not the others are
done. -/
inductive Ends (graph : SymbolGraph) : Progress → Except ShrinkError (List Nat) → Prop
  | finished {expanded reached : List Nat} : Ends graph ⟨expanded, reached, []⟩ (.ok reached)
  | failed {progress : Progress} {worker : Worker} {error : ShrinkError} :
      worker ∈ progress.workers → graph.dangling? worker.node = some error →
        Ends graph progress (.error error)

def Runs (graph : SymbolGraph) (seeds : List Nat) : Progress → Prop :=
  Relation.ReflTransGen graph.Step (graph.firstRound seeds)

variable {graph : SymbolGraph} {seeds : List Nat} {progress later : Progress}

/-! ## What stays true -/

/-- What the seeds reach, which may be no nodes themselves. -/
def Spreads (graph : SymbolGraph) (seeds : List Nat) : Nat → Prop :=
  Worklist.Reaches graph.successors (seeds ++ graph.nodes) seeds

structure Worker.Sound (graph : SymbolGraph) (reached : List Nat) (worker : Worker) : Prop where
  waiting : ∀ target ∈ worker.waiting,
    target ∈ graph.successors worker.node ∧ graph.contains target
  done : graph.dangling? worker.node = none → ∀ target ∈ graph.successors worker.node,
    target ∈ worker.waiting ∨ target ∈ reached

theorem Worker.Sound.mono {reached larger : List Nat} {worker : Worker}
    (sound : worker.Sound graph reached) (subset : reached ⊆ larger) :
    worker.Sound graph larger where
  waiting := sound.waiting
  done resolved target successor := (sound.done resolved target successor).imp_right (subset ·)

theorem Worker.Sound.advance {reached larger waiting fresh noted : List Nat} {node target : Nat}
    (sound : Worker.Sound graph reached ⟨node, target :: waiting, fresh⟩)
    (subset : reached ⊆ larger) (present : target ∈ larger) :
    Worker.Sound graph larger ⟨node, waiting, noted⟩ where
  waiting other waits := sound.waiting other (List.mem_cons_of_mem _ waits)
  done resolved successor isSuccessor := by
    rcases sound.done resolved successor isSuccessor with waits | isReached
    · rcases List.mem_cons.mp waits with rfl | waits
      · exact .inr present
      · exact .inl waits
    · exact .inr (subset isReached)

theorem workers_advance {reached larger waiting fresh noted : List Nat} {before after : List Worker}
    {node target : Nat}
    (sound : ∀ worker ∈ before ++ ⟨node, target :: waiting, fresh⟩ :: after,
      worker.Sound graph reached)
    (subset : reached ⊆ larger) (present : target ∈ larger) :
    ∀ worker ∈ before ++ ⟨node, waiting, noted⟩ :: after, worker.Sound graph larger := by
  intro worker member
  rcases List.mem_append.mp member with isBefore | isAt
  · exact (sound worker (List.mem_append_left _ isBefore)).mono subset
  · rcases List.mem_cons.mp isAt with rfl | isAfter
    · exact (sound _ (List.mem_append_right _ List.mem_cons_self)).advance subset present
    · exact (sound worker
        (List.mem_append_right _ (List.mem_cons_of_mem _ isAfter))).mono subset

theorem worker_sound (reached : List Nat) (node : Nat) :
    (graph.worker node).Sound graph reached := by
  cases dangles : graph.dangling? node with
  | some error =>
      constructor
      · simp [worker, dangles]
      · simp [worker, dangles]
  | none =>
      have inside := (dangling?_eq_none_iff node).mp dangles
      constructor
      · intro target waits
        have successor : target ∈ graph.successors node := by
          simpa [worker, dangles] using waits
        exact ⟨successor, inside target successor⟩
      · intro _ target successor
        left
        simpa [worker, dangles] using successor

/-- The reached nodes are those of the frontiers so far and those that are noted
for the next one, once each. All of them are reached from the seeds, and whatever
a former frontier keeps alive is reached. -/
structure Sound (graph : SymbolGraph) (seeds : List Nat) (progress : Progress) : Prop where
  seeded : ∀ seed ∈ seeds, seed ∈ progress.reached
  distinct : progress.reached.Nodup
  once : (progress.expanded ++ progress.frontier ++ progress.fresh).Perm progress.reached
  reaches : ∀ node ∈ progress.reached, graph.Spreads seeds node
  resolved : ∀ node ∈ progress.expanded, graph.dangling? node = none
  closed : ∀ node ∈ progress.expanded, ∀ target ∈ graph.successors node,
    target ∈ progress.reached
  workers : ∀ worker ∈ progress.workers, worker.Sound graph progress.reached

theorem frontier_map_worker (nodes : List Nat) :
    (nodes.map graph.worker).map Worker.node = nodes := by
  rw [List.map_map]
  exact List.map_id nodes

theorem fresh_map_worker (nodes : List Nat) :
    (nodes.map graph.worker).flatMap Worker.fresh = [] := by
  simp [List.flatMap_map, worker]

theorem firstRound_sound : graph.Sound seeds (graph.firstRound seeds) where
  seeded seed isSeed := List.mem_eraseDups.mpr isSeed
  distinct := Worklist.nodup_eraseDups seeds
  once := by
    simp only [Progress.frontier, Progress.fresh, firstRound, frontier_map_worker,
      fresh_map_worker]
    simp
  reaches node member := by
    have isSeed := List.mem_eraseDups.mp member
    exact .start isSeed (List.mem_append_left _ isSeed)
  resolved node member := by cases member
  closed node member := by cases member
  workers worker member := by
    rcases List.mem_map.mp member with ⟨node, _, rfl⟩
    exact worker_sound _ node

namespace Sound

theorem frontier_reached (sound : graph.Sound seeds progress) {worker : Worker}
    (member : worker ∈ progress.workers) : worker.node ∈ progress.reached := by
  have inFrontier : worker.node ∈ progress.frontier := List.mem_map_of_mem member
  exact sound.once.mem_iff.mp (List.mem_append_left _ (List.mem_append_right _ inFrontier))

theorem spreads_waiting (sound : graph.Sound seeds progress) {worker : Worker}
    (member : worker ∈ progress.workers) {target : Nat} (waits : target ∈ worker.waiting) :
    graph.Spreads seeds target := by
  have ⟨successor, inside⟩ := (sound.workers worker member).waiting target waits
  exact .step (sound.reaches _ (sound.frontier_reached member)) successor
    (List.mem_append_right _ ((mem_nodes_iff target).mpr inside))

theorem inserted {expanded reached waiting fresh : List Nat} {before after : List Worker}
    {node target : Nat}
    (sound : graph.Sound seeds
      ⟨expanded, reached, before ++ ⟨node, target :: waiting, fresh⟩ :: after⟩)
    (new : target ∉ reached) :
    graph.Sound seeds
      ⟨expanded, reached ++ [target], before ++ ⟨node, waiting, fresh ++ [target]⟩ :: after⟩ where
  seeded seed isSeed := List.mem_append_left _ (sound.seeded seed isSeed)
  distinct := by
    rw [List.nodup_append_comm, List.singleton_append, List.nodup_cons]
    exact ⟨new, sound.distinct⟩
  once := by
    rw [List.perm_iff_count]
    intro other
    have once := List.perm_iff_count.mp sound.once other
    simp only [Progress.frontier, Progress.fresh, List.map_append, List.map_cons,
      List.flatMap_append, List.flatMap_cons, List.count_append] at once ⊢
    omega
  reaches other member := by
    rcases List.mem_append.mp member with before | isTarget
    · exact sound.reaches other before
    · rw [List.mem_singleton.mp isTarget]
      exact sound.spreads_waiting (List.mem_append_right _ List.mem_cons_self) List.mem_cons_self
  resolved := sound.resolved
  closed other member successor isSuccessor :=
    List.mem_append_left _ (sound.closed other member successor isSuccessor)
  workers := workers_advance sound.workers (List.subset_append_left _ _) (by simp)

theorem repeated {expanded reached waiting fresh : List Nat} {before after : List Worker}
    {node target : Nat}
    (sound : graph.Sound seeds
      ⟨expanded, reached, before ++ ⟨node, target :: waiting, fresh⟩ :: after⟩)
    (again : target ∈ reached) :
    graph.Sound seeds ⟨expanded, reached, before ++ ⟨node, waiting, fresh⟩ :: after⟩ where
  seeded := sound.seeded
  distinct := sound.distinct
  once := by
    have once := sound.once
    simp only [Progress.frontier, Progress.fresh, List.map_append, List.map_cons,
      List.flatMap_append, List.flatMap_cons] at once ⊢
    exact once
  reaches := sound.reaches
  resolved := sound.resolved
  closed := sound.closed
  workers := workers_advance sound.workers (List.Subset.refl _) again

theorem nextRound (sound : graph.Sound seeds progress)
    (done : ∀ worker ∈ progress.workers, worker.waiting = [])
    (resolved : ∀ worker ∈ progress.workers, graph.dangling? worker.node = none) :
    graph.Sound seeds
      ⟨progress.expanded ++ progress.frontier, progress.reached,
        progress.fresh.map graph.worker⟩ where
  seeded := sound.seeded
  distinct := sound.distinct
  once := by
    have once := sound.once
    simp only [Progress.frontier, Progress.fresh, frontier_map_worker, fresh_map_worker,
      List.append_nil] at once ⊢
    exact once
  reaches := sound.reaches
  resolved node member := by
    rcases List.mem_append.mp member with former | inFrontier
    · exact sound.resolved node former
    · rcases List.mem_map.mp inFrontier with ⟨worker, isWorker, rfl⟩
      exact resolved worker isWorker
  closed node member target successor := by
    rcases List.mem_append.mp member with former | inFrontier
    · exact sound.closed node former target successor
    · rcases List.mem_map.mp inFrontier with ⟨worker, isWorker, rfl⟩
      rcases (sound.workers worker isWorker).done (resolved worker isWorker) target successor with
        waits | isReached
      · rw [done worker isWorker] at waits
        cases waits
      · exact isReached
  workers worker member := by
    rcases List.mem_map.mp member with ⟨node, _, rfl⟩
    exact worker_sound _ node

theorem step (sound : graph.Sound seeds progress) (steps : graph.Step progress later) :
    graph.Sound seeds later := by
  cases steps with
  | inserted new => exact sound.inserted new
  | repeated again => exact sound.repeated again
  | nextRound _ done resolved => exact sound.nextRound done resolved

end Sound

theorem Runs.sound (runs : graph.Runs seeds progress) : graph.Sound seeds progress := by
  induction runs with
  | refl => exact firstRound_sound
  | tail _ steps induction => exact induction.step steps

/-! ## Progress -/

/-- Marking does not get stuck before it has an answer. -/
theorem ends_or_steps (progress : Progress) :
    (∃ answer, graph.Ends progress answer) ∨ ∃ next, graph.Step progress next := by
  rcases progress with ⟨expanded, reached, workers⟩
  by_cases done : ∀ worker ∈ workers, worker.waiting = []
  · by_cases resolved : ∀ worker ∈ workers, graph.dangling? worker.node = none
    · cases workers with
      | nil => exact .inl ⟨_, .finished⟩
      | cons worker others =>
          exact .inr ⟨_, .nextRound (List.cons_ne_nil worker others) done resolved⟩
    · simp only [not_forall] at resolved
      rcases resolved with ⟨worker, isWorker, dangles⟩
      rcases Option.ne_none_iff_exists'.mp dangles with ⟨error, dangles⟩
      exact .inl ⟨_, .failed isWorker dangles⟩
  · simp only [not_forall] at done
    rcases done with ⟨⟨node, waiting, fresh⟩, isWorker, waits⟩
    rcases List.append_of_mem isWorker with ⟨before, after, rfl⟩
    rcases List.exists_cons_of_ne_nil waits with ⟨target, rest, rfl⟩
    by_cases again : target ∈ reached
    · exact .inr ⟨_, .repeated again⟩
    · exact .inr ⟨_, .inserted again⟩

def Progress.remaining (nodes : List Nat) (progress : Progress) : Nat :=
  (nodes.filter fun node => decide (node ∉ progress.reached)).length + progress.fresh.length +
    progress.workers.length

def Progress.waiting (progress : Progress) : Nat :=
  (progress.workers.flatMap Worker.waiting).length

theorem length_filter_append_lt {nodes reached : List Nat} {target : Nat}
    (inside : target ∈ nodes) (new : target ∉ reached) :
    (nodes.filter fun node => decide (node ∉ reached ++ [target])).length <
      (nodes.filter fun node => decide (node ∉ reached)).length := by
  have twice : (nodes.filter fun node => decide (node ∉ reached ++ [target])) =
      (nodes.filter fun node => decide (node ∉ reached)).filter
        fun node => decide (node ≠ target) := by
    rw [List.filter_filter]
    apply List.filter_congr
    intro node _
    simp [and_comm]
  rw [twice]
  exact List.length_filter_lt_length_iff_exists.mpr
    ⟨target, List.mem_filter.mpr ⟨inside, decide_eq_true new⟩, by simp⟩

/-- An action of a worker leaves fewer successors waiting, and a new round leaves
fewer nodes to be expanded. -/
theorem Step.decreases (steps : graph.Step progress later) (sound : graph.Sound seeds progress) :
    Prod.Lex (· < ·) (· < ·)
      (later.remaining (seeds ++ graph.nodes), later.waiting)
      (progress.remaining (seeds ++ graph.nodes), progress.waiting) := by
  cases steps with
  | @inserted expanded reached waiting fresh before after node target new =>
      have inside := (sound.spreads_waiting (List.mem_append_right _ List.mem_cons_self)
        (List.mem_cons_self : target ∈ target :: waiting)).mem_nodes
      have fewer := length_filter_append_lt inside new
      apply Prod.Lex.right'
      · simp only [Progress.remaining, Progress.fresh, List.flatMap_append, List.flatMap_cons,
          List.length_append, List.length_cons, List.length_nil] at fewer ⊢
        omega
      · simp only [Progress.waiting, List.flatMap_append, List.flatMap_cons, List.length_append,
          List.length_cons]
        omega
  | repeated again =>
      apply Prod.Lex.right'
      · simp [Progress.remaining, Progress.fresh]
      · simp only [Progress.waiting, List.flatMap_append, List.flatMap_cons, List.length_append,
          List.length_cons]
        omega
  | nextRound some _ _ =>
      apply Prod.Lex.left
      have workers := List.length_pos_iff.mpr some
      simp only [Progress.remaining, Progress.fresh, fresh_map_worker, List.length_map,
        List.length_nil]
      omega

theorem Sound.acc {progress : Progress} (sound : graph.Sound seeds progress) :
    Acc (fun later earlier => graph.Step earlier later) progress := by
  refine .intro progress fun later steps => ?_
  exact Sound.acc (sound.step steps)
termination_by (progress.remaining (seeds ++ graph.nodes), progress.waiting)
decreasing_by exact steps.decreases sound

/-! ## Answers -/

inductive SameAnswer : Except ShrinkError (List Nat) → Except ShrinkError (List Nat) → Prop
  | failed {error other : ShrinkError} : SameAnswer (.error error) (.error other)
  | reached {left right : List Nat} :
      (∀ node, node ∈ left ↔ node ∈ right) → SameAnswer (.ok left) (.ok right)

theorem Sound.mem_expanded_iff {expanded reached : List Nat}
    (sound : graph.Sound seeds ⟨expanded, reached, []⟩) (node : Nat) :
    node ∈ expanded ↔ graph.Spreads seeds node := by
  have same : ∀ other, other ∈ expanded ↔ other ∈ reached := by
    intro other
    rw [← sound.once.mem_iff]
    simp [Progress.frontier, Progress.fresh]
  rw [same]
  constructor
  · exact sound.reaches node
  · intro spreads
    induction spreads with
    | start isSeed _ => exact sound.seeded _ isSeed
    | step _ successor _ induction =>
        exact sound.closed _ ((same _).mpr induction) _ successor

/-- However marking in rounds ended, it has the answer of marking that went
through exactly what the seeds reach. -/
theorem Sound.sameAnswer (sound : graph.Sound seeds progress)
    {answer : Except ShrinkError (List Nat)} (ends : graph.Ends progress answer)
    {visits : List Nat} (complete : ∀ node, node ∈ visits ↔ graph.Spreads seeds node) :
    SameAnswer answer (graph.answer [] visits) := by
  cases ends with
  | @finished expanded reached =>
      have resolved : ∀ node ∈ visits, ∀ target ∈ graph.successors node,
          graph.contains target := by
        intro node visited
        have isExpanded := (sound.mem_expanded_iff node).mpr ((complete node).mp visited)
        exact (dangling?_eq_none_iff node).mp (sound.resolved node isExpanded)
      rw [answer_eq_ok_iff.mpr ⟨resolved, rfl⟩]
      refine .reached fun node => ?_
      rw [complete, ← sound.mem_expanded_iff, ← sound.once.mem_iff]
      simp [Progress.frontier, Progress.fresh]
  | @failed _ worker error isWorker dangles =>
      have visited := (complete worker.node).mpr
        (sound.reaches _ (sound.frontier_reached isWorker))
      cases marked : graph.answer [] visits with
      | error other => exact .failed
      | ok reached =>
          have inside := (answer_eq_ok_iff.mp marked).1 worker.node visited
          rw [(dangling?_eq_none_iff worker.node).mpr inside] at dangles
          cases dangles

theorem Sound.expanded_of_ok (sound : graph.Sound seeds progress) {reached : List Nat}
    (ends : graph.Ends progress (.ok reached)) : progress.expanded.Perm reached := by
  cases ends
  have once := sound.once
  simp only [Progress.frontier, Progress.fresh, List.map_nil, List.flatMap_nil,
    List.append_nil] at once
  exact once

/-! ## Marking with a worklist -/

theorem exists_drains (graph : SymbolGraph) (seeds : List Nat) (order : WorklistOrder) :
    ∃ visits, graph.Drains order [] (order.push seeds []) (graph.answer [] visits) ∧
      ∀ node, node ∈ visits ↔ graph.Spreads seeds node := by
  have distinct := (seeds ++ graph.nodes).nodup_dedup
  have alongside : graph.Alongside (seeds ++ graph.nodes) [] (order.push seeds [])
      (seeds ++ graph.nodes).dedup (order.push seeds []) := by
    refine ⟨?_, distinct, by simp, ?_, rfl⟩
    · intro node inside
      exact List.mem_append_right _ ((mem_nodes_iff node).mpr inside)
    · intro node member
      exact List.mem_append_left _ (by simpa using member)
  refine ⟨_, drains_drain alongside, ?_⟩
  intro node
  rw [Worklist.mem_drain_iff distinct]
  have unchanged := Worklist.reaches_iff_visited graph.successors (seeds ++ graph.nodes) seeds []
    (seeds ++ graph.nodes).dedup (order.push seeds []) (by simp) (by simp) (by simp) node
  rw [Spreads, unchanged]
  simp

theorem mem_reachedBy_iff_spreads {roots : List Nat}
    (boundariesInside : ∀ node ∈ graph.boundaries, graph.contains node)
    (rootsInside : ∀ root ∈ roots, graph.contains root)
    (sameSeeds : ∀ node, node ∈ seeds ↔ node ∈ graph.boundaries ++ roots)
    (schedule : Schedule) (node : Nat) :
    node ∈ graph.reachedBy schedule roots ↔ graph.Spreads seeds node := by
  have seedsInside : ∀ seed ∈ seeds, graph.contains seed := by
    intro seed isSeed
    rcases List.mem_append.mp ((sameSeeds seed).mp isSeed) with isBoundary | isRoot
    · exact boundariesInside seed isBoundary
    · exact rootsInside seed isRoot
  have unchanged := Worklist.reaches_iff_visited graph.successors (seeds ++ graph.nodes) seeds []
    graph.nodes (graph.boundaries ++ roots) (by simp) (by
      intro other
      rw [List.mem_append, mem_nodes_iff]
      constructor
      · intro inside
        exact ⟨.inr inside, List.not_mem_nil⟩
      · intro present
        rcases present.1 with isSeed | inside
        · exact seedsInside other isSeed
        · exact inside) (by
      intro other _
      simp [sameSeeds]) node
  rw [mem_reachedBy_iff, reaches_iff_worklist, Spreads, unchanged]
  simp

/-- Marking by many workers. From all seeds and on every schedule, marking ends:
there is no endless run, and one that cannot go on has an answer. No node is in a
frontier twice, and in the end each reached node has been expanded once. Marking
fails where the marking loop fails, and reaches the same nodes otherwise. Where
the seeds are the boundary symbols and the roots, the same holds for `mark`. -/
theorem parallel_runs_agree (graph : SymbolGraph) (seeds : List Nat) :
    Acc (fun later earlier => graph.Step earlier later) (graph.firstRound seeds) ∧
    (∀ progress, graph.Runs seeds progress →
      ((∃ answer, graph.Ends progress answer) ∨ ∃ next, graph.Step progress next) ∧
      (progress.expanded ++ progress.frontier).Nodup ∧
      ∀ reached, graph.Ends progress (.ok reached) → progress.expanded.Perm reached) ∧
    (∀ order, ∃ sequential, graph.Drains order [] (order.push seeds []) sequential ∧
      ∀ progress answer, graph.Runs seeds progress → graph.Ends progress answer →
        SameAnswer answer sequential) ∧
    (∀ roots, (∀ node ∈ graph.boundaries, graph.contains node) →
      (∀ root ∈ roots, graph.contains root) →
      (∀ node, node ∈ seeds ↔ node ∈ graph.boundaries ++ roots) →
      ∀ schedule progress answer, graph.Runs seeds progress → graph.Ends progress answer →
        SameAnswer answer (graph.mark schedule roots)) := by
  refine ⟨firstRound_sound.acc, ?_, ?_, ?_⟩
  · intro progress runs
    have sound := runs.sound
    refine ⟨ends_or_steps progress, ?_, fun _ ends => sound.expanded_of_ok ends⟩
    exact (List.nodup_append.mp (sound.once.nodup_iff.mpr sound.distinct)).1
  · intro order
    rcases exists_drains graph seeds order with ⟨visits, drains, complete⟩
    exact ⟨_, drains, fun _ _ runs ends => runs.sound.sameAnswer ends complete⟩
  · intro roots boundariesInside rootsInside sameSeeds schedule progress answer runs ends
    rw [mark_eq_answer schedule rootsInside]
    exact runs.sound.sameAnswer ends
      (mem_reachedBy_iff_spreads boundariesInside rootsInside sameSeeds schedule)

theorem parallel_runs_agree_mutualDraft :
    ∃ progress, mutualDraft.view.Runs [2, 1] progress ∧
      mutualDraft.view.Ends progress (.ok [2, 1, 0, 3]) ∧ progress.expanded = [2, 1, 3, 0] ∧
      SameAnswer (.ok [2, 1, 0, 3]) (mutualDraft.view.mark (.sequential .depthFirst) [1]) ∧
      SameAnswer (.ok [2, 1, 0, 3]) (mutualDraft.view.mark .parallel [1]) := by
  have inserts : mutualDraft.view.Step
      ⟨[], [2, 1], [⟨2, [3], []⟩] ++ ⟨1, [0, 0], []⟩ :: []⟩
      ⟨[], [2, 1, 0], [⟨2, [3], []⟩] ++ ⟨1, [0], [0]⟩ :: []⟩ := .inserted (by decide)
  have repeats : mutualDraft.view.Step
      ⟨[], [2, 1, 0], [⟨2, [3], []⟩] ++ ⟨1, [0], [0]⟩ :: []⟩
      ⟨[], [2, 1, 0], [⟨2, [3], []⟩] ++ ⟨1, [], [0]⟩ :: []⟩ := .repeated (by decide)
  have follows : mutualDraft.view.Step
      ⟨[], [2, 1, 0], [] ++ ⟨2, [3], []⟩ :: [⟨1, [], [0]⟩]⟩
      ⟨[], [2, 1, 0, 3], [] ++ ⟨2, [], [3]⟩ :: [⟨1, [], [0]⟩]⟩ := .inserted (by decide)
  have secondRound : mutualDraft.view.Step
      ⟨[], [2, 1, 0, 3], [⟨2, [], [3]⟩, ⟨1, [], [0]⟩]⟩
      ⟨[2, 1], [2, 1, 0, 3], [] ++ ⟨3, [0, 2], []⟩ :: [⟨0, [1], []⟩]⟩ :=
    .nextRound (List.cons_ne_nil _ _) (by decide) (by decide)
  have repeatsZero : mutualDraft.view.Step
      ⟨[2, 1], [2, 1, 0, 3], [] ++ ⟨3, [0, 2], []⟩ :: [⟨0, [1], []⟩]⟩
      ⟨[2, 1], [2, 1, 0, 3], [] ++ ⟨3, [2], []⟩ :: [⟨0, [1], []⟩]⟩ := .repeated (by decide)
  have repeatsTwo : mutualDraft.view.Step
      ⟨[2, 1], [2, 1, 0, 3], [] ++ ⟨3, [2], []⟩ :: [⟨0, [1], []⟩]⟩
      ⟨[2, 1], [2, 1, 0, 3], [] ++ ⟨3, [], []⟩ :: [⟨0, [1], []⟩]⟩ := .repeated (by decide)
  have repeatsOne : mutualDraft.view.Step
      ⟨[2, 1], [2, 1, 0, 3], [⟨3, [], []⟩] ++ ⟨0, [1], []⟩ :: []⟩
      ⟨[2, 1], [2, 1, 0, 3], [⟨3, [], []⟩] ++ ⟨0, [], []⟩ :: []⟩ := .repeated (by decide)
  have lastRound : mutualDraft.view.Step
      ⟨[2, 1], [2, 1, 0, 3], [⟨3, [], []⟩, ⟨0, [], []⟩]⟩ ⟨[2, 1, 3, 0], [2, 1, 0, 3], []⟩ :=
    .nextRound (List.cons_ne_nil _ _) (by decide) (by decide)
  have runs : mutualDraft.view.Runs [2, 1] ⟨[2, 1, 3, 0], [2, 1, 0, 3], []⟩ :=
    .head inserts (.head repeats (.head follows (.head secondRound
      (.head repeatsZero (.head repeatsTwo (.head repeatsOne (.single lastRound)))))))
  have agrees := (parallel_runs_agree mutualDraft.view [2, 1]).2.2.2 [1] (by decide) (by decide)
    (by simp [show mutualDraft.view.boundaries = [2] from rfl])
  exact ⟨_, runs, .finished, rfl, agrees _ _ _ runs .finished, agrees _ _ _ runs .finished⟩

end ClassShrink.SymbolGraph
