import ClassShrink.Error
import ClassShrink.Graph.View

/-! # What a reached symbol keeps alive

A symbol keeps what its edges need. A method keeps what it overrides and what
overrides it, since a call to the one may run the other; so does a boundary
symbol, which may stand for a library method. A class keeps its static
initializer. -/

namespace ClassShrink.SymbolGraph

def followed (graph : SymbolGraph) (node : Nat) : List Nat :=
  ((graph.outgoing node).filter fun edge => edge.2.isTraversed).map Prod.fst

def companions (graph : SymbolGraph) (node : Nat) : List Nat :=
  match graph.kind node with
  | .method | .boundary => graph.overriddenBy node ++ graph.overrides node
  | .classDecl => (graph.staticInitializer? node).toList
  | .field => []

def successors (graph : SymbolGraph) (node : Nat) : List Nat :=
  graph.followed node ++ graph.companions node

def dangling? (graph : SymbolGraph) (node : Nat) : Option ShrinkError :=
  ((graph.successors node).find? fun target => !graph.contains target).map fun target =>
    .danglingEdge (graph.name node) (graph.handle target)

/-- What is reached: the roots, the boundary symbols, and every successor within
the graph of something reached. -/
inductive Reaches (graph : SymbolGraph) (roots : List Nat) : Nat → Prop
  | root {node : Nat} : node ∈ roots → graph.contains node → Reaches graph roots node
  | boundary {node : Nat} :
      node ∈ graph.boundaries → graph.contains node → Reaches graph roots node
  | step {node target : Nat} :
      Reaches graph roots node → target ∈ graph.successors node → graph.contains target →
        Reaches graph roots target

end ClassShrink.SymbolGraph
