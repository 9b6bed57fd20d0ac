import ClassShrink.Graph.View

/-! # Drafted graphs

A symbol graph that is put together node by node, without a program. Its lists
keep the order in which they were made, and repetitions. -/

namespace ClassShrink

structure DraftNode where
  name : String
  kind : SymbolKind
  owner? : Option Nat := none
  members : List Nat := []
  edges : List (Nat × EdgeKind) := []
  overrides : List Nat := []
  overriddenBy : List Nat := []
  annotations : List String := []
deriving DecidableEq, Repr

/-- A graph under construction; a node's number is its place in the list. -/
structure Draft where
  nodes : List DraftNode := []
deriving DecidableEq, Repr

namespace Draft

def size (draft : Draft) : Nat :=
  draft.nodes.length

def add (draft : Draft) (node : DraftNode) : Draft :=
  { nodes := draft.nodes ++ [node] }

def change (draft : Draft) (node : Nat) (edit : DraftNode → DraftNode) : Draft :=
  { nodes := draft.nodes.modify node edit }

def addClass (draft : Draft) (name : String) : Draft :=
  draft.add { name, kind := .classDecl }

def addBoundary (draft : Draft) (name : String) : Draft :=
  draft.add { name, kind := .boundary }

def addEdge (draft : Draft) (source target : Nat) (kind : EdgeKind) : Draft :=
  draft.change source fun node => { node with edges := node.edges ++ [(target, kind)] }

def addMember? (draft : Draft) (kind : SymbolKind) (owner : Nat) (signature : String) :
    Option Draft :=
  draft.nodes[owner]?.map fun declaring =>
    let number := draft.size
    let member : DraftNode :=
      { name := declaring.name ++ "." ++ signature, kind, owner? := some owner }
    let draft := (draft.add member).change owner fun node =>
      { node with members := node.members ++ [number] }
    draft.addEdge number owner .references

def addOverride (draft : Draft) (overrider overridden : Nat) : Draft :=
  let draft := draft.change overrider fun node =>
    { node with overrides := node.overrides ++ [overridden] }
  let draft := draft.change overridden fun node =>
    { node with overriddenBy := node.overriddenBy ++ [overrider] }
  draft.addEdge overrider overridden .overrides

def annotate (draft : Draft) (node : Nat) (tag : String) : Draft :=
  draft.change node fun node => { node with annotations := node.annotations ++ [tag] }

def reverse (draft : Draft) : Draft :=
  { nodes := draft.nodes.map fun node =>
      { node with
        members := node.members.reverse
        edges := node.edges.reverse
        overrides := node.overrides.reverse
        overriddenBy := node.overriddenBy.reverse } }

/-! ## View -/

def targets (edges : List (Nat × EdgeKind)) (kind : EdgeKind) : List Nat :=
  (edges.filter fun edge => edge.2 = kind).map Prod.fst

def ofKind (draft : Draft) (kind : SymbolKind) : List Nat :=
  (draft.nodes.zipIdx.filter fun (node, _) => node.kind = kind).map Prod.snd

/-- The graph as drafted so far. Numbers that are no node are written plainly,
and static initializers are recognised by name. -/
def view (draft : Draft) : SymbolGraph :=
  let at? (node : Nat) : DraftNode := draft.nodes[node]?.getD { name := "", kind := .boundary }
  let graph : SymbolGraph :=
    { size := draft.size
      name := fun node => (at? node).name
      kind := fun node => (at? node).kind
      owner? := fun node => (at? node).owner?
      members := fun node => (at? node).members
      superclass? := fun node => (targets (at? node).edges .extendsClass).head?
      interfaces := fun node => targets (at? node).edges .implementsInterface
      outgoing := fun node => (at? node).edges
      overrides := fun node => (at? node).overrides
      overriddenBy := fun node => (at? node).overriddenBy
      annotations := fun node => (at? node).annotations
      staticInitializer? := fun _ => none
      classes := draft.ofKind .classDecl
      boundaries := draft.ofKind .boundary
      handle := toString }
  { graph with staticInitializer? := graph.initializerByName? }

end Draft

end ClassShrink
