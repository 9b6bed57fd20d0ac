import ClassShrink.Ascending
import ClassShrink.Graph.View
import ClassShrink.Hierarchy.Lookup
import ClassShrink.Override.Index

/-! # Program graphs

The symbol graph of a program, with the tables that lead from names and from
places in the program to nodes. -/

namespace ClassShrink

inductive Origin where
  | declaration (position : Nat)
  | member (position index : Nat)
  | boundary
deriving DecidableEq, Repr

structure SymbolNode where
  name : String
  kind : SymbolKind
  origin : Origin
deriving DecidableEq, Repr

def SymbolNode.boundary (name : String) : SymbolNode :=
  { name, kind := .boundary, origin := .boundary }

structure Edge where
  source : Nat
  target : Nat
  kind : EdgeKind
deriving DecidableEq, Repr

/-- A node's number is its place in the list of nodes; edges are in the order of
their making. -/
structure ProgramGraph where
  program : Program
  nodes : List SymbolNode := []
  nameIndex : Table String Nat := {}
  classNodes : List Nat := []
  memberNodes : List (List Nat) := []
  edges : List Edge := []
  boundaries : List Nat := []
  overrideIndex : OverrideIndex := {}
deriving DecidableEq, Repr

namespace ProgramGraph

/-- Nodes have 32 bits: of a larger number from outside only the low bits count. -/
def nodeOf (number : Nat) : Nat :=
  number % Nat.pow 2 32

/-! ## Tables -/

def names (graph : ProgramGraph) : List String :=
  graph.nodes.map (·.name)

def origins (graph : ProgramGraph) : List Origin :=
  graph.nodes.map (·.origin)

def size (graph : ProgramGraph) : Nat :=
  graph.nodes.length

def node (graph : ProgramGraph) (number : Nat) : SymbolNode :=
  graph.nodes[number]?.getD (.boundary "")

def find? (graph : ProgramGraph) (name : String) : Option Nat :=
  graph.nameIndex.get? name

def classNode (graph : ProgramGraph) (position : Nat) : Nat :=
  graph.classNodes[position]?.getD 0

def memberNodesAt (graph : ProgramGraph) (position : Nat) : List Nat :=
  graph.memberNodes[position]?.getD []

def memberNode (graph : ProgramGraph) (position index : Nat) : Nat :=
  (graph.memberNodesAt position)[index]?.getD 0

def boundary? (graph : ProgramGraph) (name : String) : Option Nat :=
  (graph.boundaries.map fun node => ((graph.node node).name, node)).lookup name

def memberAt? (graph : ProgramGraph) (position index : Nat) : Option Member :=
  graph.program.classes[position]?.bind (·.members[index]?)

def initializerAt? (graph : ProgramGraph) (position : Nat) : Option Nat :=
  graph.program.classes[position]?.bind fun declaration =>
    (declaration.members.findIdx? fun member =>
      member.kind = .method && member.name = staticInitializerName).map
        (graph.memberNode position)

/-! ## View -/

/-- The newest edge of a node comes first. -/
def outgoing (graph : ProgramGraph) (node : Nat) : List (Nat × EdgeKind) :=
  ((graph.edges.filter fun edge => edge.source = node).map fun edge =>
    (edge.target, edge.kind)).reverse

def targets (graph : ProgramGraph) (node : Nat) (kind : EdgeKind) : List Nat :=
  ((graph.outgoing node).filter fun edge => edge.2 = kind).map Prod.fst

def view (graph : ProgramGraph) : SymbolGraph where
  size := graph.size
  name node := (graph.node node).name
  kind node := (graph.node node).kind
  owner? node :=
    match (graph.node node).origin with
    | .member position _ => some (graph.classNode position)
    | _ => none
  members node :=
    match (graph.node node).origin with
    | .declaration position => graph.memberNodesAt position
    | _ => []
  superclass? node := (graph.targets node .extendsClass).head?
  interfaces node := (graph.targets node .implementsInterface).mergeSort natLe
  outgoing := graph.outgoing
  overrides := graph.overrideIndex.overrides
  overriddenBy := graph.overrideIndex.overriddenBy
  annotations node :=
    match (graph.node node).origin with
    | .declaration position => (graph.program.classes[position]?.map (·.annotations)).getD []
    | .member position index => ((graph.memberAt? position index).map (·.annotations)).getD []
    | .boundary => []
  staticInitializer? node :=
    match (graph.node node).origin with
    | .declaration position => graph.initializerAt? position
    | _ => none
  classes := graph.classNodes
  boundaries := graph.boundaries
  handle node := s!"NodeIndex({nodeOf node})"

end ProgramGraph

end ClassShrink
