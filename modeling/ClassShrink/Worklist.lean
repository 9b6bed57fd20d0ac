/-! # Worklists

Exploring what can be reached from some starting points. Every visit takes a
node out of those not yet visited, so the exploration ends, whatever cycles
there are. -/

namespace ClassShrink

inductive WorklistOrder where
  | depthFirst
  | breadthFirst
deriving DecidableEq, Repr

namespace WorklistOrder

def name : WorklistOrder → String
  | .depthFirst => "depth-first"
  | .breadthFirst => "breadth-first"

def ofName? (name : String) : Option WorklistOrder :=
  [WorklistOrder.depthFirst, .breadthFirst].find? fun order => order.name = name

/-- Add new items to the pending ones, of which the first is taken next. Of
items added depth-first, the last is taken first. -/
def push {α : Type} (order : WorklistOrder) (items pending : List α) : List α :=
  match order with
  | .depthFirst => items.reverse ++ pending
  | .breadthFirst => pending ++ items

end WorklistOrder

namespace Worklist

variable {α : Type} [DecidableEq α]

/-- Visit up to `count` nodes. The next node is the first pending one that is
not yet visited; it adds its successors to the pending ones. Nothing outside the
unvisited nodes is ever visited. The answer lists the visits in order. -/
def visit (order : WorklistOrder) (successors : α → List α) :
    (count : Nat) → (unvisited pending : List α) → List α
  | 0, _, _ => []
  | count + 1, unvisited, pending =>
      match pending.dropWhile fun node => decide (node ∉ unvisited) with
      | [] => []
      | node :: rest =>
          node :: visit order successors count (unvisited.erase node)
            (order.push (successors node) rest)

def explore (order : WorklistOrder) (successors : α → List α) (nodes starts : List α) :
    List α :=
  visit order successors nodes.length nodes (order.push starts [])

example : explore .breadthFirst (fun node => [node + 2, node / 2]) [0, 1, 2, 3, 4, 5] [3, 9] =
    [3, 5, 1, 2, 0, 4] := by
  decide

def frontier (unvisited starts : List α) : List α :=
  (starts.filter fun node => decide (node ∈ unvisited)).eraseDups

/-- Explore in at most `count` rounds: all nodes of a frontier are visited
together, and the next frontier is made of their successors that are not yet
visited. The answer lists the frontiers. -/
def advance (successors : α → List α) :
    (count : Nat) → (unvisited starts : List α) → List (List α)
  | 0, _, _ => []
  | count + 1, unvisited, starts =>
      match frontier unvisited starts with
      | [] => []
      | first :: others =>
          let visited := first :: others
          visited :: advance successors count
            (unvisited.filter fun node => decide (node ∉ visited))
            (visited.flatMap successors)

def rounds (successors : α → List α) (nodes starts : List α) : List (List α) :=
  advance successors nodes.length nodes starts

example : rounds (fun node => [node + 2, node / 2]) [0, 1, 2, 3, 4, 5] [3, 9] =
    [[3], [5, 1], [2, 0], [4]] := by
  decide

end Worklist

end ClassShrink
