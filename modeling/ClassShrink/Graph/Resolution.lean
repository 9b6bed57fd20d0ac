import ClassShrink.Error
import ClassShrink.Graph.Program

/-! # Resolution

The edges of each class, with the names that a class or reference uses resolved
by the tables of a graph. Classes are resolved in turn or by workers. -/

namespace ClassShrink

/-- What an edge is to point at: a symbol of the program, or whatever has a
name. -/
inductive Target where
  | node (node : Nat)
  | named (name : String)
deriving DecidableEq, Repr

structure PendingEdge where
  source : Nat
  target : Target
  kind : EdgeKind
deriving DecidableEq, Repr

namespace ProgramGraph

/-! ## Targets -/

def classTarget (graph : ProgramGraph) (name : String) : Target :=
  match graph.program.position? name with
  | some position => .node (graph.classNode position)
  | none => .named name

/-- What a reference of a member denotes: a class, the declaration that a member
reference binds to, or whatever has the name. It is a fault if no class can have
the member. -/
def referenceTarget (graph : ProgramGraph) (source : String) (reference : Reference) :
    Except ShrinkError Target :=
  match reference.signature?, graph.program.position? reference.owner with
  | none, _ => .ok (graph.classTarget reference.owner)
  | some _, none => .ok (.named reference.qualifiedName)
  | some signature, some owner =>
      match graph.program.lookup owner signature with
      | .found declaration => .ok (.node (graph.memberNode declaration.owner declaration.index))
      | .maybeInherited => .ok (.named reference.qualifiedName)
      | .missing => .error (.unresolvedMember source reference.qualifiedName)

/-! ## Edges -/

def annotationEdges (graph : ProgramGraph) (source : Nat) (tags : List String) :
    List PendingEdge :=
  (graph.program.defined tags).map fun position =>
    ⟨source, .node (graph.classNode position), .annotatedBy⟩

/-- The edges of one reference: to what it denotes, and, for a member reference,
to the named owner as well, which must stay even if the member is inherited. -/
def referenceEdges (graph : ProgramGraph) (source : Nat) (name : String)
    (reference : Reference) : Except ShrinkError (List PendingEdge) := do
  let target ← graph.referenceTarget name reference
  let owners := if reference.name.isSome then graph.program.defined [reference.owner] else []
  return ⟨source, target, .references⟩ ::
    owners.map fun position => ⟨source, .node (graph.classNode position), .references⟩

def memberEdges (graph : ProgramGraph) (declaration : ClassDecl) (position : Nat)
    (member : Member) (index : Nat) : Except ShrinkError (List PendingEdge) := do
  let source := graph.memberNode position index
  let name := member.qualifiedName declaration.name
  let references ← member.references.mapM (graph.referenceEdges source name)
  return ⟨source, .node (graph.classNode position), .references⟩ ::
    graph.annotationEdges source member.annotations ++ references.flatten

def classEdges (graph : ProgramGraph) (declaration : ClassDecl) (position : Nat) :
    Except ShrinkError (List PendingEdge) := do
  let source := graph.classNode position
  let members ← declaration.members.zipIdx.mapM fun (member, index) =>
    graph.memberEdges declaration position member index
  return declaration.superclass.toList.map (fun name =>
      ⟨source, graph.classTarget name, .extendsClass⟩) ++
    declaration.interfaces.map (fun name =>
      ⟨source, graph.classTarget name, .implementsInterface⟩) ++
    graph.annotationEdges source declaration.annotations ++ members.flatten

def edgesAt (graph : ProgramGraph) (position : Nat) : Except ShrinkError (List PendingEdge) :=
  match graph.program.classes[position]? with
  | some declaration => graph.classEdges declaration position
  | none => .ok []

/-! ## Resolution in turn -/

def edgesInTurn (graph : ProgramGraph) : Except ShrinkError (List PendingEdge) :=
  graph.program.positions.foldlM (fun edges position => do
    return edges ++ (← graph.edgesAt position)) []

/-! ## Resolution by workers -/

end ProgramGraph

structure Gathering where
  gathered : Table Nat (List PendingEdge) := {}
  fault? : Option ShrinkError := none
deriving DecidableEq, Repr

namespace Gathering

/-- A worker hands in a class. Once a fault is saved, nothing else counts. -/
def handIn (graph : ProgramGraph) (gathering : Gathering) (position : Nat) : Gathering :=
  match gathering.fault? with
  | some _ => gathering
  | none =>
      match graph.edgesAt position with
      | .ok edges => { gathering with gathered := gathering.gathered.insert position edges }
      | .error fault => { gathering with fault? := some fault }

def answer (program : Program) (gathering : Gathering) :
    Except ShrinkError (List PendingEdge) :=
  match gathering.fault? with
  | some fault => .error fault
  | none => .ok (program.positions.flatMap fun position =>
      (gathering.gathered.get? position).getD [])

end Gathering

def ProgramGraph.edgesByWorkers (graph : ProgramGraph) (order : List Nat) :
    Except ShrinkError (List PendingEdge) :=
  (order.foldl (Gathering.handIn graph) {}).answer graph.program

end ClassShrink
