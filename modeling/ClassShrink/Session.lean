import ClassShrink.Mark.Basic
import ClassShrink.Sweep.Basic

/-! # Sessions

Asking one graph several questions in a row. A session remembers the current
roots and the current reached set. A question that cannot be answered leaves the
session as it was. -/

namespace ClassShrink

structure Session where
  roots : List Nat := []
  reached? : Option (List Nat) := none
deriving DecidableEq, Repr

inductive SessionError where
  | notMarked
  | noSuchNode
  | fatal (error : ShrinkError)
deriving DecidableEq, Repr

structure NodeView where
  name : String
  kind : SymbolKind
  owner? : Option Nat
  members : List Nat
  methods : List Nat
  fields : List Nat
  superclass? : Option Nat
  interfaces : List Nat
  outgoing : List (Nat × EdgeKind)
  overrides : List Nat
  overriddenBy : List Nat
  annotations : List String
  staticInitializer? : Option Nat
  isBoundary : Bool
deriving DecidableEq, Repr

namespace SymbolGraph

def nodeView (graph : SymbolGraph) (node : Nat) : NodeView :=
  { name := graph.name node
    kind := graph.kind node
    owner? := graph.owner? node
    members := graph.members node
    methods := graph.methods node
    fields := graph.fields node
    superclass? := graph.superclass? node
    interfaces := graph.interfaces node
    outgoing := graph.outgoing node
    overrides := graph.overrides node
    overriddenBy := graph.overriddenBy node
    annotations := graph.annotations node
    staticInitializer? := graph.staticInitializer? node
    isBoundary := graph.isBoundary node }

def nameSet (graph : SymbolGraph) (nodes : List Nat) : List String :=
  ascending textLe (nodes.map graph.name)

def nameList (graph : SymbolGraph) (nodes : List Nat) : List String :=
  (nodes.map graph.name).mergeSort textLe

end SymbolGraph

namespace Session

inductive Question where
  | view (node : Nat)
  | contains (node : Nat)
  | classes
  | boundaries
  | roots (rules : List KeepRule)
  | mark (roots? : Option (List Nat)) (schedule : Schedule)
  | markAgain (schedule : Schedule)
  | setReached (nodes : List Nat)
  | drop (nodes : List Nat)
  | isReached (node : Nat)
  | verify

inductive ProgramQuestion where
  | find (name : String)
  | markNames (names : List String) (schedule : Schedule)
  | sweep

inductive Answer where
  | node (view : NodeView)
  | flag (value : Bool)
  | nodes (nodes : List Nat)
  | position (node? : Option Nat)
  | roots (rules : List String) (names : List String) (roots : RootSet)
  | reached (names : List String) (size : Nat)
  | named (names : List String) (size : Nat)
  | again (size : Nat) (same : Bool)
  | size (size : Nat)
  | intact
  | outcome (outcome : Outcome)

def sameNodes (left right : List Nat) : Bool :=
  left.all (fun node => node ∈ right) && right.all (fun node => node ∈ left)

def markFrom (session : Session) (graph : SymbolGraph) (schedule : Schedule) (roots : List Nat) :
    Except SessionError (List Nat × Session) :=
  match graph.mark schedule roots with
  | .error error => .error (.fatal error)
  | .ok reached => .ok (reached, { session with reached? := some reached })

/-- Put a question to a graph. New roots stay even if marking from them fails. -/
def ask (session : Session) (graph : SymbolGraph) (question : Question) :
    Except SessionError Answer × Session :=
  let unchanged (answer : Except SessionError Answer) := (answer, session)
  match question with
  | .view node =>
      unchanged <|
        if graph.contains node then .ok (.node (graph.nodeView node)) else .error .noSuchNode
  | .contains node => unchanged (.ok (.flag (graph.contains node)))
  | .classes => unchanged (.ok (.nodes graph.classes))
  | .boundaries => unchanged (.ok (.nodes graph.boundaries))
  | .roots rules =>
      let roots := RootSet.compute graph rules
      (.ok (.roots (rules.map (·.name)) (graph.nameList roots.symbols) roots),
        { session with roots := roots.symbols })
  | .mark roots? schedule =>
      let session := { session with roots := (roots?.map List.eraseDups).getD session.roots }
      match session.markFrom graph schedule session.roots with
      | .error error => (.error error, session)
      | .ok (reached, session) =>
          (.ok (.reached (graph.nameSet reached) reached.length), session)
  | .markAgain schedule =>
      match session.reached? with
      | none => unchanged (.error .notMarked)
      | some before =>
          match session.markFrom graph schedule before with
          | .error error => unchanged (.error error)
          | .ok (reached, session) =>
              (.ok (.again reached.length (sameNodes before reached)), session)
  | .setReached nodes =>
      if nodes.all graph.contains then
        let reached := nodes.eraseDups
        (.ok (.size reached.length), { session with reached? := some reached })
      else unchanged (.error .noSuchNode)
  | .drop nodes =>
      if nodes.all graph.contains then
        match session.reached? with
        | none => unchanged (.error .notMarked)
        | some before =>
            let reached := before.filter fun node => node ∉ nodes
            (.ok (.size reached.length), { session with reached? := some reached })
      else unchanged (.error .noSuchNode)
  | .isReached node =>
      unchanged <|
        match session.reached? with
        | none => .error .notMarked
        | some reached => .ok (.flag (node ∈ reached))
  | .verify =>
      unchanged <|
        match session.reached? with
        | none => .error .notMarked
        | some reached =>
            match graph.violation? reached with
            | some error => .error (.fatal error)
            | none => .ok .intact

/-- Put a question to the graph of a program. Symbols to mark from become the
roots. -/
def askProgram (session : Session) (graph : ProgramGraph) (view : SymbolGraph)
    (question : ProgramQuestion) : Except SessionError Answer × Session :=
  match question with
  | .find name => (.ok (.position (graph.find? name)), session)
  | .markNames names schedule =>
      match names.mapM graph.find? with
      | none => (.error .noSuchNode, session)
      | some roots =>
          let session := { session with roots := roots.eraseDups }
          match session.markFrom view schedule session.roots with
          | .error error => (.error error, session)
          | .ok (reached, session) =>
              (.ok (.named (view.nameSet reached) reached.length), session)
  | .sweep =>
      match session.reached? with
      | none => (.error .notMarked, session)
      | some reached =>
          match graph.sweep reached with
          | .error error => (.error (.fatal error), session)
          | .ok outcome => (.ok (.outcome outcome), session)

end Session

end ClassShrink
