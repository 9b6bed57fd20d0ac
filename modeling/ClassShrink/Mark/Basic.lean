import ClassShrink.Mark.Successors
import ClassShrink.Worklist

/-! # Marking

The closure of the roots and the boundary symbols under successors, with a
worklist or in rounds. A successor outside the graph is an error. -/

namespace ClassShrink

/-- How marking goes about. The reached set does not depend on it. -/
inductive Schedule where
  | sequential (order : WorklistOrder)
  | parallel
deriving DecidableEq, Repr

namespace SymbolGraph

def foreignRoot? (graph : SymbolGraph) (roots : List Nat) : Option ShrinkError :=
  (roots.find? fun root => !graph.contains root).map fun root =>
    .danglingEdge "keep rules" (graph.handle root)

def visited (graph : SymbolGraph) (order : WorklistOrder) (roots : List Nat) : List Nat :=
  Worklist.explore order graph.successors graph.nodes (graph.boundaries ++ roots)

def frontiers (graph : SymbolGraph) (roots : List Nat) : List (List Nat) :=
  Worklist.rounds graph.successors graph.nodes (graph.boundaries ++ roots)

def mark (graph : SymbolGraph) (schedule : Schedule) (roots : List Nat) :
    Except ShrinkError (List Nat) :=
  match graph.foreignRoot? roots with
  | some error => .error error
  | none =>
      let reached :=
        match schedule with
        | .sequential order => graph.visited order roots
        | .parallel => (graph.frontiers roots).flatten
      match reached.findSome? graph.dangling? with
      | some error => .error error
      | none => .ok reached

end SymbolGraph

end ClassShrink
