import ClassShrink.Proofs.Worklist
import Mathlib.Data.Nat.Find

/-! # Nearer nodes first

A worklist that is drained breadth-first visits nodes in the order of their
distance from the starting points, so the first visited node with a property is
one of the nearest that have it. -/

namespace ClassShrink.Worklist

variable {α β : Type} {successors : α → List α} {nodes near far : List α}
  {distance : Nat} {head node : α}

/-! ## Distances -/

/-- A number of steps leads to a node without leaving the nodes. The second list
of starting points is one step away from the beginning. -/
inductive ReachesIn (successors : α → List α) (nodes near far : List α) : Nat → α → Prop
  | near {node : α} : node ∈ near → node ∈ nodes → ReachesIn successors nodes near far 0 node
  | far {node : α} : node ∈ far → node ∈ nodes → ReachesIn successors nodes near far 1 node
  | step {distance : Nat} {node target : α} :
      ReachesIn successors nodes near far distance node → target ∈ successors node →
        target ∈ nodes → ReachesIn successors nodes near far (distance + 1) target

theorem exists_reachesIn_iff (starts : List α) (node : α) :
    (∃ distance, ReachesIn successors nodes starts [] distance node) ↔
      Reaches successors nodes starts node := by
  constructor
  · rintro ⟨distance, reaches⟩
    induction reaches with
    | near starting inside => exact .start starting inside
    | far starting _ => cases starting
    | step _ successor inside induction => exact .step induction successor inside
  · intro reaches
    induction reaches with
    | start starting inside => exact ⟨0, .near starting inside⟩
    | step _ successor inside induction =>
        rcases induction with ⟨distance, reaches⟩
        exact ⟨distance + 1, .step reaches successor inside⟩

theorem ReachesIn.of_starts {otherNear otherFar : List α}
    (reaches : ReachesIn successors nodes near far distance node)
    (nearStays : ∀ start ∈ nodes, start ∈ near → start ∈ otherNear)
    (farStays : ∀ start ∈ nodes, start ∈ far → start ∈ otherFar) :
    ReachesIn successors nodes otherNear otherFar distance node := by
  induction reaches with
  | near starting inside => exact .near (nearStays _ inside starting) inside
  | far starting inside => exact .far (farStays _ inside starting) inside
  | step _ successor inside induction => exact .step induction successor inside

theorem reachesIn_far_iff :
    ReachesIn successors nodes [] far distance node ↔
      ∃ shorter, distance = shorter + 1 ∧ ReachesIn successors nodes far [] shorter node := by
  constructor
  · intro reaches
    induction reaches with
    | near starting _ => cases starting
    | far starting inside => exact ⟨0, rfl, .near starting inside⟩
    | step _ successor inside induction =>
        rcases induction with ⟨shorter, rfl, reaches⟩
        exact ⟨shorter + 1, rfl, .step reaches successor inside⟩
  · rintro ⟨shorter, rfl, reaches⟩
    induction reaches with
    | near starting inside => exact .far starting inside
    | far starting _ => cases starting
    | step _ successor inside induction => exact .step induction successor inside

/-! ## The order of visits -/

def NoFarther (successors : α → List α) (nodes near far : List α) (first second : α) : Prop :=
  ∀ distance, ReachesIn successors nodes near far distance second →
    ∃ shorter ≤ distance, ReachesIn successors nodes near far shorter first

theorem NoFarther.of_starts {otherNear otherFar : List α} {first second : α}
    (noFarther : NoFarther successors nodes near far first second)
    (nearSame : ∀ start ∈ nodes, start ∈ near ↔ start ∈ otherNear)
    (farSame : ∀ start ∈ nodes, start ∈ far ↔ start ∈ otherFar) :
    NoFarther successors nodes otherNear otherFar first second := by
  intro distance reaches
  have same := reaches.of_starts (fun start inside => (nearSame start inside).mpr)
    fun start inside => (farSame start inside).mpr
  rcases noFarther distance same with ⟨shorter, atMost, sooner⟩
  exact ⟨shorter, atMost, sooner.of_starts (fun start inside => (nearSame start inside).mp)
    fun start inside => (farSame start inside).mp⟩

theorem NoFarther.next_layer {first second : α}
    (noFarther : NoFarther successors nodes far [] first second) :
    NoFarther successors nodes [] far first second := by
  intro distance reaches
  rcases reachesIn_far_iff.mp reaches with ⟨shorter, rfl, sooner⟩
  rcases noFarther shorter sooner with ⟨shortest, least, soonest⟩
  exact ⟨shortest + 1, Nat.succ_le_succ least, reachesIn_far_iff.mpr ⟨shortest, rfl, soonest⟩⟩

/-! ## Visits -/

variable [DecidableEq α]

theorem ReachesIn.of_visited (inside : head ∈ nodes)
    (reaches : ReachesIn successors (nodes.erase head) near (far ++ successors head)
      distance node) :
    ReachesIn successors nodes (head :: near) far distance node := by
  induction reaches with
  | near starting left =>
      exact .near (List.mem_cons_of_mem _ starting) (List.mem_of_mem_erase left)
  | far starting left =>
      rcases List.mem_append.mp starting with starting | successor
      · exact .far starting (List.mem_of_mem_erase left)
      · exact .step (.near List.mem_cons_self inside) successor (List.mem_of_mem_erase left)
  | step _ successor left induction =>
      exact .step induction successor (List.mem_of_mem_erase left)

/-- A visit to a starting point takes no other node farther away: a way that leads
through it may as well begin at its successors. -/
theorem ReachesIn.after_visit (distinct : nodes.Nodup)
    (reaches : ReachesIn successors nodes (head :: near) far distance node)
    (different : node ≠ head) :
    ∃ shorter ≤ distance,
      ReachesIn successors (nodes.erase head) near (far ++ successors head) shorter node := by
  induction reaches with
  | near starting inside =>
      have left := distinct.mem_erase_iff.mpr ⟨different, inside⟩
      exact ⟨0, Nat.le_refl 0, .near ((List.mem_cons.mp starting).resolve_left different) left⟩
  | far starting inside =>
      have left := distinct.mem_erase_iff.mpr ⟨different, inside⟩
      exact ⟨1, Nat.le_refl 1, .far (List.mem_append_left _ starting) left⟩
  | @step distance node target _ successor inside induction =>
      have left := distinct.mem_erase_iff.mpr ⟨different, inside⟩
      by_cases visited : node = head
      · -- What follows the visited node is one step away now, and was no nearer before.
        subst visited
        exact ⟨1, by omega, .far (List.mem_append_right _ successor) left⟩
      · rcases induction visited with ⟨shorter, atMost, reaches⟩
        exact ⟨shorter + 1, by omega, .step reaches successor left⟩

theorem NoFarther.before_visit (distinct : nodes.Nodup) (present : head ∈ nodes)
    {first second : α} (different : second ≠ head)
    (noFarther :
      NoFarther successors (nodes.erase head) near (far ++ successors head) first second) :
    NoFarther successors nodes (head :: near) far first second := by
  intro distance reaches
  rcases reaches.after_visit distinct different with ⟨shorter, atMost, sooner⟩
  rcases noFarther shorter sooner with ⟨shortest, least, soonest⟩
  exact ⟨shortest, Nat.le_trans least atMost, soonest.of_visited present⟩

/-- The visits from a queue are in the order of distance, where the queue holds the
rest of one layer and then what is known of the next. -/
theorem drain_pairwise {unvisited pending : List α} (distinct : unvisited.Nodup)
    (split : pending = near ++ far) :
    (drain .breadthFirst successors unvisited pending).Pairwise
      (NoFarther successors unvisited near far) := by
  induction unvisited, pending using drain_induction .breadthFirst successors
    generalizing near far with
  | done unvisited => simp
  | seen unvisited head pending absent induction =>
      rw [drain_cons_of_not_mem pending absent]
      have skips (starts : List α) :
          ∀ start ∈ unvisited, start ∈ starts ↔ start ∈ head :: starts := by
        intro start inside
        have different : start ≠ head := fun equal => absent (equal ▸ inside)
        simp [different]
      cases near with
      | nil =>
          obtain rfl : head :: pending = far := split
          exact (induction distinct (List.nil_append pending).symm).imp fun noFarther =>
            noFarther.of_starts (fun _ _ => Iff.rfl) (skips pending)
      | cons first near =>
          obtain ⟨rfl, rfl⟩ := List.cons.inj split
          exact (induction distinct rfl).imp fun noFarther =>
            noFarther.of_starts (skips near) fun _ _ => Iff.rfl
  | fresh unvisited head pending present induction =>
      have visit {near far : List α} (split : pending = near ++ far) :
          (drain .breadthFirst successors unvisited (head :: pending)).Pairwise
            (NoFarther successors unvisited (head :: near) far) := by
        rw [drain_cons_of_mem pending present, List.pairwise_cons]
        refine ⟨fun later _ distance _ => ⟨0, Nat.zero_le _, .near List.mem_cons_self present⟩, ?_⟩
        have queue : WorklistOrder.breadthFirst.push (successors head) pending =
            near ++ (far ++ successors head) := by
          rw [split]
          exact List.append_assoc _ _ _
        refine (induction (distinct.erase head) queue).imp_of_mem ?_
        intro first second _ later noFarther
        have left := ((mem_drain_iff (distinct.erase head) _ _).mp later).mem_nodes
        exact noFarther.before_visit distinct present (distinct.mem_erase_iff.mp left).1
      cases near with
      | nil =>
          -- The layer has run out, and the next one takes its place.
          obtain rfl : head :: pending = far := split
          exact (visit (List.append_nil pending).symm).imp NoFarther.next_layer
      | cons first near =>
          obtain ⟨rfl, rest⟩ := List.cons.inj split
          exact visit rest

/-! ## The first with a property -/

/-- Where a breadth-first exploration first finds something, it is found at the
least distance. -/
theorem exists_nearest_of_findSome? (distinct : nodes.Nodup) {starts : List α}
    {find : α → Option β} {result : β}
    (found : (explore .breadthFirst successors nodes starts).findSome? find = some result) :
    ∃ node distance, find node = some result ∧
      ReachesIn successors nodes starts [] distance node ∧
      ∀ other farther, ReachesIn successors nodes starts [] farther other →
        (find other).isSome → distance ≤ farther := by
  classical
  rcases List.findSome?_eq_some_iff.mp found with ⟨before, node, after, visits, finds, unfound⟩
  have ordered : (before ++ node :: after).Pairwise (NoFarther successors nodes starts []) := by
    rw [← visits]
    exact drain_pairwise distinct (List.append_nil starts).symm
  have reached : ∃ distance, ReachesIn successors nodes starts [] distance node := by
    rw [exists_reachesIn_iff, ← mem_explore_iff distinct, visits]
    simp
  refine ⟨node, Nat.find reached, finds, Nat.find_spec reached, ?_⟩
  intro other farther reaches findsOther
  have visited : other ∈ before ++ node :: after := by
    rw [← visits, mem_explore_iff distinct]
    exact (exists_reachesIn_iff starts other).mp ⟨farther, reaches⟩
  rcases List.mem_append.mp visited with earlier | later
  · rw [unfound other earlier] at findsOther
    cases findsOther
  · rcases List.mem_cons.mp later with rfl | later
    · exact Nat.find_min' reached reaches
    · have noFarther := (List.pairwise_cons.mp (List.pairwise_append.mp ordered).2.1).1 other later
      rcases noFarther farther reaches with ⟨shorter, atMost, reaches⟩
      exact Nat.le_trans (Nat.find_min' reached reaches) atMost

end ClassShrink.Worklist
