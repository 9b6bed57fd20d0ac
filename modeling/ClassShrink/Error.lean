/-! # Fatal errors of a shrink pass

What stops a pass: then it produces nothing. A keep rule that fails is not among
these, since the pass goes on without it. -/

namespace ClassShrink

inductive Stage where
  | graph
  | mark
  | sweep
deriving DecidableEq, Repr

def Stage.name : Stage → String
  | .graph => "graph construction"
  | .mark => "mark"
  | .sweep => "sweep"

inductive ShrinkError where
  | duplicateSymbol (name : String)
  | unresolvedMember (source target : String)
  | danglingEdge (source target : String)
  | integrityViolation (source target : String)
deriving DecidableEq, Repr

namespace ShrinkError

def stage : ShrinkError → Stage
  | .duplicateSymbol _ | .unresolvedMember _ _ => .graph
  | .danglingEdge _ _ => .mark
  | .integrityViolation _ _ => .sweep

def message : ShrinkError → String
  | .duplicateSymbol name => s!"Symbol '{name}' is defined more than once"
  | .unresolvedMember source target =>
      s!"'{source}' references '{target}', which is not declared anywhere in its hierarchy"
  | .danglingEdge source target =>
      s!"Edge from '{source}' points at a node outside the graph: {target}"
  | .integrityViolation source target =>
      s!"Retained symbol '{source}' references removed symbol '{target}'"

def code : ShrinkError → String
  | .duplicateSymbol _ => "deadsweep::graph::duplicate"
  | .unresolvedMember _ _ => "deadsweep::graph::unresolved_member"
  | .danglingEdge _ _ => "deadsweep::mark::dangling_edge"
  | .integrityViolation _ _ => "deadsweep::sweep::integrity"

def help? : ShrinkError → Option String
  | .duplicateSymbol _ =>
      some "each class name and each member name+descriptor within a class must be unique"
  | .unresolvedMember _ _ =>
      some ("the owner and all of its supertypes are defined in the program, " ++
        "so the member must be too")
  | .danglingEdge _ _ => none
  | .integrityViolation _ _ =>
      some ("the graph builder is missing an edge; " ++
        "the reached set is not referentially closed")

end ShrinkError

end ClassShrink
