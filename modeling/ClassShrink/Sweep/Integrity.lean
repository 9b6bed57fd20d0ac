import ClassShrink.Ascending
import ClassShrink.Error
import ClassShrink.Mark.Successors

/-! # Integrity

A set of nodes is intact if the edges that marking follows do not lead out of
it. Of all edges that do, the one with the least pair of names is reported, so
that the report does not depend on any order. -/

namespace ClassShrink.SymbolGraph

def violations (graph : SymbolGraph) (reached : List Nat) : List (String × String) :=
  reached.flatMap fun node =>
    ((graph.followed node).filter fun target => target ∉ reached).map fun target =>
      (graph.name node, graph.describe target)

def leastPair? : List (String × String) → Option (String × String)
  | [] => none
  | pair :: rest =>
      match leastPair? rest with
      | none => some pair
      | some least => some (if textPairLe pair least then pair else least)

def violation? (graph : SymbolGraph) (reached : List Nat) : Option ShrinkError :=
  (leastPair? (graph.violations reached)).map fun (source, target) =>
    .integrityViolation source target

end ClassShrink.SymbolGraph
