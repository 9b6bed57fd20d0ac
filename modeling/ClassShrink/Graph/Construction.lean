import ClassShrink.Graph.Resolution
import ClassShrink.Override.Pairs

/-! # Construction

A graph is built in three rounds. The symbols of the program get their nodes, the
edges of the classes are drawn, with a boundary symbol for each name that is used
and not defined, and the override pairs are inserted. -/

namespace ClassShrink

def MemberKind.symbolKind : MemberKind → SymbolKind
  | .method => .method
  | .field => .field

namespace ProgramGraph

/-! ## Nodes -/

def addNode (graph : ProgramGraph) (node : SymbolNode) : ProgramGraph :=
  { graph with
    nodes := graph.nodes ++ [node]
    nameIndex := graph.nameIndex.insert node.name graph.size }

structure Row where
  graph : ProgramGraph
  byKey : Table Signature Nat := {}
  nodes : List Nat := []

def Row.addMember (declaration : ClassDecl) (position : Nat) (row : Row) :
    Member × Nat → Except ShrinkError Row
  | (member, index) =>
      let name := member.qualifiedName declaration.name
      if row.byKey.contains member.signature || row.graph.nameIndex.contains name then
        .error (.duplicateSymbol name)
      else
        .ok
          { graph := row.graph.addNode
              { name, kind := member.kind.symbolKind, origin := .member position index }
            byKey := row.byKey.insert member.signature index
            nodes := row.nodes ++ [row.graph.size] }

def addClass (graph : ProgramGraph) : ClassDecl × Nat → Except ShrinkError ProgramGraph
  | (declaration, position) =>
      if graph.nameIndex.contains declaration.name then
        .error (.duplicateSymbol declaration.name)
      else do
        let node := graph.size
        let graph := graph.addNode
          { name := declaration.name, kind := .classDecl, origin := .declaration position }
        let row ← declaration.members.zipIdx.foldlM (Row.addMember declaration position) { graph }
        return { row.graph with
          classNodes := row.graph.classNodes ++ [node]
          memberNodes := row.graph.memberNodes ++ [row.nodes] }

def layOut (program : Program) : Except ShrinkError ProgramGraph :=
  program.classes.zipIdx.foldlM addClass { program }

/-! ## Edges -/

/-- The node that a target denotes. A name that nothing has gets a boundary
symbol. -/
def settle (graph : ProgramGraph) : Target → ProgramGraph × Nat
  | .node node => (graph, node)
  | .named name =>
      match graph.find? name with
      | some node => (graph, node)
      | none =>
          ({ graph.addNode (.boundary name) with boundaries := graph.boundaries ++ [graph.size] },
            graph.size)

def addEdge (graph : ProgramGraph) (edge : Edge) : ProgramGraph :=
  if edge ∈ graph.edges then graph else { graph with edges := graph.edges ++ [edge] }

def addPending (graph : ProgramGraph) (edge : PendingEdge) : ProgramGraph :=
  let (graph, target) := graph.settle edge.target
  graph.addEdge ⟨edge.source, target, edge.kind⟩

/-! ## Overrides -/

def addOverride (graph : ProgramGraph) (pair : Nat × Nat) : ProgramGraph :=
  { graph with
    edges := graph.edges ++ [⟨pair.1, pair.2, .overrides⟩]
    overrideIndex := graph.overrideIndex.insert pair.1 pair.2 }

def overridePairs (graph : ProgramGraph) : List (Nat × Nat) :=
  let node (method : MemberPosition) := graph.memberNode method.owner method.index
  graph.program.methodPairs.map (fun pair => (node pair.1, node pair.2)) ++
    (graph.program.libraryPairs graph.boundary?).map fun pair => (node pair.1, pair.2)

def addOverrides (graph : ProgramGraph) : ProgramGraph :=
  let graph := graph.overridePairs.foldl addOverride graph
  { graph with overrideIndex := graph.overrideIndex.normalize }

/-! ## Construction -/

inductive Resolution where
  | inTurn
  | byWorkers (order : List Nat)

def pendingEdges (graph : ProgramGraph) : Resolution → Except ShrinkError (List PendingEdge)
  | .inTurn => graph.edgesInTurn
  | .byWorkers order => graph.edgesByWorkers order

def construct (program : Program) (resolution : Resolution) : Except ShrinkError ProgramGraph := do
  let graph ← layOut program
  let edges ← graph.pendingEdges resolution
  return (edges.foldl addPending graph).addOverrides

/-- Build the graph of a program, unless a name is given twice or a reference
asks for a member that cannot exist. Workers may hand the classes in in any order;
here they do so from the last to the first. -/
def build (program : Program) (parallel : Bool := false) : Except ShrinkError ProgramGraph :=
  construct program (if parallel then .byWorkers program.positions.reverse else .inTurn)

end ProgramGraph

end ClassShrink
