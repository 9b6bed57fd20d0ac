import ClassShrink.Worklist
import Mathlib.Data.List.Forall2
import Mathlib.Logic.Relation

/-! # What a worklist reaches

An exploration visits exactly the nodes that its starting points reach without
leaving the given nodes, whatever the order and whether it goes node by node or
in rounds. Explorations of two graphs that correspond visit corresponding nodes
in turn. -/

namespace ClassShrink

/-! ## Pending nodes -/

namespace WorklistOrder

variable {α β : Type}

@[simp] theorem mem_push (order : WorklistOrder) (items pending : List α) (node : α) :
    node ∈ order.push items pending ↔ node ∈ items ∨ node ∈ pending := by
  cases order <;> simp [push, or_comm]

theorem filter_push (order : WorklistOrder) (keeps : α → Bool) (items pending : List α) :
    (order.push items pending).filter keeps =
      order.push (items.filter keeps) (pending.filter keeps) := by
  cases order <;> simp [push]

theorem push_related {relation : α → β → Prop} (order : WorklistOrder)
    {leftItems leftPending : List α} {rightItems rightPending : List β}
    (items : List.Forall₂ relation leftItems rightItems)
    (pending : List.Forall₂ relation leftPending rightPending) :
    List.Forall₂ relation (order.push leftItems leftPending)
      (order.push rightItems rightPending) := by
  cases order with
  | depthFirst => exact List.rel_append (List.rel_reverse items) pending
  | breadthFirst => exact List.rel_append pending items

end WorklistOrder

namespace Worklist

variable {α β : Type} [DecidableEq α] [DecidableEq β]

/-! ## Reachability -/

/-- What the starting points reach without leaving the nodes. -/
inductive Reaches (successors : α → List α) (nodes starts : List α) : α → Prop
  | start {node : α} : node ∈ starts → node ∈ nodes → Reaches successors nodes starts node
  | step {node target : α} :
      Reaches successors nodes starts node → target ∈ successors node → target ∈ nodes →
        Reaches successors nodes starts target

variable {successors : α → List α}

omit [DecidableEq α] in
theorem Reaches.mem_nodes {nodes starts : List α} {node : α}
    (reaches : Reaches successors nodes starts node) : node ∈ nodes := by
  cases reaches with
  | start _ inside => exact inside
  | step _ _ inside => exact inside

omit [DecidableEq α] in
theorem not_reaches_nil (nodes : List α) (node : α) : ¬Reaches successors nodes [] node := by
  intro reaches
  induction reaches with
  | start starting _ => cases starting
  | step _ _ _ impossible => exact impossible

omit [DecidableEq α] in
theorem reaches_singleton_iff {nodes : List α} {first : α} (inside : first ∈ nodes)
    (successorsInside : ∀ node, ∀ target ∈ successors node, target ∈ nodes) (node : α) :
    Reaches successors nodes [first] node ↔
      Relation.ReflTransGen (fun source target => target ∈ successors source) first node := by
  constructor
  · intro reaches
    induction reaches with
    | start starting _ => rw [List.mem_singleton.mp starting]
    | step _ successor _ induction => exact induction.tail successor
  · intro steps
    induction steps with
    | refl => exact .start (List.mem_singleton_self first) inside
    | tail _ successor induction =>
        exact .step induction successor (successorsInside _ _ successor)

/-- Once some starting points are visited, what remains to be reached is what
their successors and the other starting points reach among the other nodes. -/
theorem reaches_iff_visited (successors : α → List α)
    (nodes starts visited others later : List α)
    (visitedStarts : ∀ node ∈ visited, node ∈ starts ∧ node ∈ nodes)
    (othersLeft : ∀ node, node ∈ others ↔ node ∈ nodes ∧ node ∉ visited)
    (laterStarts : ∀ node ∈ others,
      node ∈ later ↔ node ∈ starts ∨ ∃ source ∈ visited, node ∈ successors source)
    (node : α) :
    Reaches successors nodes starts node ↔
      node ∈ visited ∨ Reaches successors others later node := by
  constructor
  · intro reaches
    induction reaches with
    | @start node starting inside =>
        by_cases seen : node ∈ visited
        · exact .inl seen
        · have left := (othersLeft node).mpr ⟨inside, seen⟩
          exact .inr (.start ((laterStarts node left).mpr (.inl starting)) left)
    | @step node target _ successor inside induction =>
        by_cases seen : target ∈ visited
        · exact .inl seen
        · have left := (othersLeft target).mpr ⟨inside, seen⟩
          rcases induction with visitedBefore | reached
          · exact .inr (.start
              ((laterStarts target left).mpr (.inr ⟨node, visitedBefore, successor⟩)) left)
          · exact .inr (.step reached successor left)
  · intro seenOrReached
    rcases seenOrReached with seen | reaches
    · exact .start (visitedStarts node seen).1 (visitedStarts node seen).2
    · induction reaches with
      | @start node starting left =>
          have inside := ((othersLeft node).mp left).1
          rcases (laterStarts node left).mp starting with before | ⟨source, seen, successor⟩
          · exact .start before inside
          · have reached := visitedStarts source seen
            exact .step (.start reached.1 reached.2) successor inside
      | @step _ target _ successor left induction =>
          exact .step induction successor ((othersLeft target).mp left).1

/-! ## Visiting node by node -/

/-- Visit whatever can be visited. Every visit takes one of the unvisited nodes,
so that their number never cuts it short. -/
def drain (order : WorklistOrder) (successors : α → List α) (unvisited pending : List α) :
    List α :=
  visit order successors unvisited.length unvisited pending

theorem explore_eq_drain (order : WorklistOrder) (successors : α → List α)
    (nodes starts : List α) :
    explore order successors nodes starts =
      drain order successors nodes (order.push starts []) := rfl

variable {order : WorklistOrder} {unvisited : List α}

@[simp] theorem drain_nil : drain order successors unvisited [] = [] := by
  unfold drain
  cases unvisited.length <;> simp [visit]

theorem drain_cons_of_not_mem {node : α} (pending : List α) (seen : node ∉ unvisited) :
    drain order successors unvisited (node :: pending) =
      drain order successors unvisited pending := by
  unfold drain
  cases unvisited.length <;> simp [visit, seen]

theorem drain_cons_of_mem {node : α} (pending : List α) (fresh : node ∈ unvisited) :
    drain order successors unvisited (node :: pending) =
      node :: drain order successors (unvisited.erase node)
        (order.push (successors node) pending) := by
  have count : unvisited.length = (unvisited.erase node).length + 1 := by
    have positive := List.length_pos_of_mem fresh
    rw [List.length_erase_of_mem fresh]
    omega
  unfold drain
  rw [count]
  simp [visit, fresh]

/-- What holds without pending nodes, and holds with one more pending node if it
holds after that node was taken, holds always. A node that is taken either was
visited before and is left out, or is visited and adds its successors. -/
theorem drain_induction (order : WorklistOrder) (successors : α → List α)
    {motive : List α → List α → Prop}
    (done : ∀ unvisited, motive unvisited [])
    (seen : ∀ unvisited node pending, node ∉ unvisited → motive unvisited pending →
      motive unvisited (node :: pending))
    (fresh : ∀ unvisited node pending, node ∈ unvisited →
      motive (unvisited.erase node) (order.push (successors node) pending) →
      motive unvisited (node :: pending)) :
    ∀ unvisited pending, motive unvisited pending
  | unvisited, [] => done unvisited
  | unvisited, node :: pending => by
      by_cases member : node ∈ unvisited
      · have shorter : (unvisited.erase node).length < unvisited.length := by
          have positive := List.length_pos_of_mem member
          rw [List.length_erase_of_mem member]
          omega
        exact fresh unvisited node pending member
          (drain_induction order successors done seen fresh _ _)
      · exact seen unvisited node pending member
          (drain_induction order successors done seen fresh _ _)
termination_by unvisited pending => (unvisited.length, pending.length)

theorem mem_drain_iff (distinct : unvisited.Nodup) (pending : List α) (node : α) :
    node ∈ drain order successors unvisited pending ↔
      Reaches successors unvisited pending node := by
  revert distinct
  induction unvisited, pending using drain_induction order successors with
  | done unvisited =>
      intro _
      simp [not_reaches_nil]
  | seen unvisited head pending absent induction =>
      intro distinct
      have unchanged := reaches_iff_visited successors unvisited
        (head :: pending) [] unvisited pending (by simp) (by simp) (by
          intro other left
          have different : other ≠ head := fun equal => absent (equal ▸ left)
          simp [different]) node
      rw [drain_cons_of_not_mem pending absent, induction distinct, unchanged]
      simp
  | fresh unvisited head pending present induction =>
      intro distinct
      have expanded := reaches_iff_visited successors unvisited
        (head :: pending) [head] (unvisited.erase head)
        (order.push (successors head) pending) (by simpa using present) (by
          intro other
          rw [distinct.mem_erase_iff, List.mem_singleton]
          exact and_comm) (by
          intro other left
          have different : other ≠ head := (distinct.mem_erase_iff.mp left).1
          simp [different, or_comm]) node
      rw [drain_cons_of_mem pending present, List.mem_cons,
        induction (distinct.erase head), expanded, List.mem_singleton]

theorem drain_nodup (distinct : unvisited.Nodup) (pending : List α) :
    (drain order successors unvisited pending).Nodup := by
  revert distinct
  induction unvisited, pending using drain_induction order successors with
  | done unvisited => simp
  | seen unvisited head pending absent induction =>
      intro distinct
      rw [drain_cons_of_not_mem pending absent]
      exact induction distinct
  | fresh unvisited head pending present induction =>
      intro distinct
      rw [drain_cons_of_mem pending present, List.nodup_cons]
      refine ⟨fun again => ?_, induction (distinct.erase head)⟩
      have left := ((mem_drain_iff (distinct.erase head) _ _).mp again).mem_nodes
      exact (distinct.mem_erase_iff.mp left).1 rfl

theorem mem_explore_iff {nodes : List α} (distinct : nodes.Nodup) (starts : List α) (node : α) :
    node ∈ explore order successors nodes starts ↔ Reaches successors nodes starts node := by
  have unchanged := reaches_iff_visited successors nodes starts [] nodes
    (order.push starts []) (by simp) (by simp) (by simp) node
  rw [explore_eq_drain, mem_drain_iff distinct, unchanged]
  simp

theorem explore_singleton {nodes : List α} {first : α} (inside : first ∈ nodes) :
    ∃ others, explore order successors nodes [first] = first :: others := by
  have start : order.push [first] [] = [first] := by cases order <;> rfl
  rw [explore_eq_drain, start, drain_cons_of_mem [] inside]
  exact ⟨_, rfl⟩

theorem explore_nodup {nodes : List α} (distinct : nodes.Nodup) (starts : List α) :
    (explore order successors nodes starts).Nodup :=
  drain_nodup distinct _

/-! ## Corresponding explorations -/

/-- Where related nodes have related successors, and are unvisited together, the
visits are related in turn. -/
theorem drain_related {relation : α → β → Prop} (unique : Relator.BiUnique relation)
    {leftSuccessors : α → List α} {rightSuccessors : β → List β}
    (successorsRelated : ∀ left right, relation left right →
      List.Forall₂ relation (leftSuccessors left) (rightSuccessors right))
    {leftUnvisited leftPending : List α} {rightUnvisited rightPending : List β}
    (leftDistinct : leftUnvisited.Nodup) (rightDistinct : rightUnvisited.Nodup)
    (unvisitedTogether : ∀ left right, relation left right →
      (left ∈ leftUnvisited ↔ right ∈ rightUnvisited))
    (pendingRelated : List.Forall₂ relation leftPending rightPending) :
    List.Forall₂ relation (drain order leftSuccessors leftUnvisited leftPending)
      (drain order rightSuccessors rightUnvisited rightPending) := by
  induction leftUnvisited, leftPending using drain_induction order leftSuccessors
    generalizing rightUnvisited rightPending with
  | done leftUnvisited =>
      cases pendingRelated
      simp
  | seen leftUnvisited left leftPending absent induction =>
      cases pendingRelated with
      | @cons _ right _ rightPending related pendingRelated =>
          have rightAbsent : right ∉ rightUnvisited := fun present =>
            absent ((unvisitedTogether left right related).mpr present)
          rw [drain_cons_of_not_mem _ absent, drain_cons_of_not_mem _ rightAbsent]
          exact induction leftDistinct rightDistinct unvisitedTogether pendingRelated
  | fresh leftUnvisited left leftPending present induction =>
      cases pendingRelated with
      | @cons _ right _ rightPending related pendingRelated =>
          have rightPresent := (unvisitedTogether left right related).mp present
          rw [drain_cons_of_mem _ present, drain_cons_of_mem _ rightPresent]
          refine .cons related (induction (leftDistinct.erase left)
            (rightDistinct.erase right) ?_
            (order.push_related (successorsRelated left right related) pendingRelated))
          intro otherLeft otherRight otherRelated
          have equalTogether : otherLeft = left ↔ otherRight = right :=
            Relator.rel_eq unique otherRelated related
          rw [leftDistinct.mem_erase_iff, rightDistinct.mem_erase_iff, Ne, Ne, equalTogether,
            unvisitedTogether otherLeft otherRight otherRelated]

theorem explore_related {relation : α → β → Prop} (unique : Relator.BiUnique relation)
    {leftSuccessors : α → List α} {rightSuccessors : β → List β}
    (successorsRelated : ∀ left right, relation left right →
      List.Forall₂ relation (leftSuccessors left) (rightSuccessors right))
    {leftNodes leftStarts : List α} {rightNodes rightStarts : List β}
    (leftDistinct : leftNodes.Nodup) (rightDistinct : rightNodes.Nodup)
    (nodesTogether : ∀ left right, relation left right →
      (left ∈ leftNodes ↔ right ∈ rightNodes))
    (startsRelated : List.Forall₂ relation leftStarts rightStarts) :
    List.Forall₂ relation (explore order leftSuccessors leftNodes leftStarts)
      (explore order rightSuccessors rightNodes rightStarts) :=
  drain_related unique successorsRelated leftDistinct rightDistinct nodesTogether
    (order.push_related startsRelated .nil)

/-! ## Visiting in rounds -/

theorem nodup_eraseDups : ∀ elements : List α, elements.eraseDups.Nodup
  | [] => by simp
  | head :: tail => by
      rw [List.eraseDups_cons, List.nodup_cons]
      refine ⟨fun again => ?_, nodup_eraseDups _⟩
      simpa using (List.mem_filter.mp (List.mem_eraseDups.mp again)).2
termination_by elements => elements.length
decreasing_by exact Nat.lt_succ_of_le (List.length_filter_le _ _)

theorem mem_frontier_iff (unvisited starts : List α) (node : α) :
    node ∈ frontier unvisited starts ↔ node ∈ starts ∧ node ∈ unvisited := by
  simp [frontier]

theorem mem_advance_iff {count : Nat} {unvisited starts : List α}
    (enough : unvisited.length ≤ count) (node : α) :
    node ∈ (advance successors count unvisited starts).flatten ↔
      Reaches successors unvisited starts node := by
  induction count generalizing unvisited starts with
  | zero =>
      have empty : unvisited = [] := List.length_eq_zero_iff.mp (by omega)
      subst empty
      simp only [advance, List.flatten_nil, List.not_mem_nil, false_iff]
      intro reaches
      cases reaches.mem_nodes
  | succ count induction =>
      have expanded := reaches_iff_visited successors unvisited starts
        (frontier unvisited starts)
        (unvisited.filter fun node => decide (node ∉ frontier unvisited starts))
        ((frontier unvisited starts).flatMap successors)
        (fun node visited => (mem_frontier_iff unvisited starts node).mp visited) (by simp) (by
          intro other left
          have inside := List.mem_filter.mp left
          have notStart : other ∉ starts := fun starting =>
            of_decide_eq_true inside.2 ((mem_frontier_iff _ _ _).mpr ⟨starting, inside.1⟩)
          simp [notStart]) node
      rw [expanded]
      unfold advance
      cases shape : frontier unvisited starts with
      | nil =>
          simp [not_reaches_nil]
      | cons first others =>
          have fewer : (unvisited.filter fun node =>
              decide (node ∉ first :: others)).length ≤ count := by
            have firstUnvisited : first ∈ unvisited :=
              ((mem_frontier_iff unvisited starts first).mp (by simp [shape])).2
            have shorter : (unvisited.filter fun node =>
                decide (node ∉ first :: others)).length < unvisited.length :=
              List.length_filter_lt_length_iff_exists.mpr ⟨first, firstUnvisited, by simp⟩
            omega
          rw [List.flatten_cons, List.mem_append, induction fewer]

theorem mem_rounds_iff (nodes starts : List α) (node : α) :
    node ∈ (rounds successors nodes starts).flatten ↔ Reaches successors nodes starts node :=
  mem_advance_iff (Nat.le_refl _) node

theorem mem_unvisited_of_mem_advance {count : Nat} {unvisited starts : List α} {node : α}
    (visited : node ∈ (advance successors count unvisited starts).flatten) :
    node ∈ unvisited := by
  induction count generalizing unvisited starts with
  | zero => cases visited
  | succ count induction =>
      unfold advance at visited
      cases shape : frontier unvisited starts with
      | nil => simp [shape] at visited
      | cons first others =>
          rw [shape, List.flatten_cons, List.mem_append] at visited
          rcases visited with now | later
          · rw [← shape] at now
            exact ((mem_frontier_iff unvisited starts node).mp now).2
          · exact (List.mem_filter.mp (induction later)).1

theorem advance_nodup (count : Nat) (unvisited starts : List α) :
    (advance successors count unvisited starts).flatten.Nodup := by
  induction count generalizing unvisited starts with
  | zero => exact List.nodup_nil
  | succ count induction =>
      unfold advance
      cases shape : frontier unvisited starts with
      | nil => exact List.nodup_nil
      | cons first others =>
          have once : (first :: others).Nodup := shape ▸ nodup_eraseDups _
          rw [List.flatten_cons]
          refine List.nodup_append.mpr ⟨once, induction _ _, ?_⟩
          rintro node now _ later rfl
          exact of_decide_eq_true
            (List.mem_filter.mp (mem_unvisited_of_mem_advance later)).2 now

theorem rounds_nodup (nodes starts : List α) : (rounds successors nodes starts).flatten.Nodup :=
  advance_nodup _ nodes starts

end Worklist

end ClassShrink
