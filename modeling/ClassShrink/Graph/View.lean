import ClassShrink.Program.Basic
import ClassShrink.Symbol
import ClassShrink.Text.Search

/-! # Symbol graphs

What keep rules, marking and the integrity check see of a graph. Nodes are
numbered from zero. An edge or an override may name a number that is no node, so
a graph is not assumed to be closed. -/

namespace ClassShrink

structure SymbolGraph where
  size : Nat
  /-- The name of a class, or `Owner.name:descriptor` for a member. -/
  name : Nat → String
  kind : Nat → SymbolKind
  owner? : Nat → Option Nat
  members : Nat → List Nat
  superclass? : Nat → Option Nat
  interfaces : Nat → List Nat
  outgoing : Nat → List (Nat × EdgeKind)
  overrides : Nat → List Nat
  overriddenBy : Nat → List Nat
  annotations : Nat → List String
  staticInitializer? : Nat → Option Nat
  classes : List Nat
  boundaries : List Nat
  /-- How a number that is no node is written. -/
  handle : Nat → String

namespace SymbolGraph

def contains (graph : SymbolGraph) (node : Nat) : Bool :=
  decide (node < graph.size)

def nodes (graph : SymbolGraph) : List Nat :=
  List.range graph.size

def methods (graph : SymbolGraph) (node : Nat) : List Nat :=
  (graph.members node).filter fun member => graph.kind member = .method

def fields (graph : SymbolGraph) (node : Nat) : List Nat :=
  (graph.members node).filter fun member => graph.kind member = .field

def isBoundary (graph : SymbolGraph) (node : Nat) : Bool :=
  graph.kind node = .boundary

def describe (graph : SymbolGraph) (node : Nat) : String :=
  if graph.contains node then graph.name node else graph.handle node

/-- The static initializer of a class, recognised by the text of its qualified
name: the first method with the initializer's name between a point and a colon. -/
def initializerByName? (graph : SymbolGraph) (node : Nat) : Option Nat :=
  (graph.methods node).find? fun method =>
    Text.holds (graph.name method) ("." ++ staticInitializerName ++ ":")

end SymbolGraph

end ClassShrink
