import ClassShrink.Ascending
import ClassShrink.Keep.Rule

/-! # Root sets

The union of what all keep rules answer on all classes. A rule that fails on a
class loses its answer there and nothing else; the failure is recorded. -/

namespace ClassShrink

structure RuleFault where
  rule : String
  className : String
  message : String
deriving DecidableEq, Repr

namespace RuleFault

def text (fault : RuleFault) : String :=
  s!"rule '{fault.rule}' failed on {fault.className}: {fault.message}"

def le (left right : RuleFault) : Bool :=
  decide (left.rule < right.rule) ||
    (decide (left.rule = right.rule) &&
      (decide (left.className < right.className) ||
        (decide (left.className = right.className) && decide (left.message ≤ right.message))))

end RuleFault

structure RootSet where
  symbols : List Nat := []
  faults : List RuleFault := []
deriving DecidableEq, Repr

namespace RootSet

def size (roots : RootSet) : Nat :=
  roots.symbols.length

def isEmpty (roots : RootSet) : Bool :=
  roots.symbols.isEmpty

def merge (left right : RootSet) : RootSet :=
  { symbols := left.symbols ++ right.symbols.filter fun symbol => symbol ∉ left.symbols
    faults := left.faults ++ right.faults }

def ofSymbols (symbols : List Nat) (faults : List RuleFault := []) : RootSet :=
  { symbols := symbols.eraseDups, faults }

def ofAnswer (graph : SymbolGraph) (node : Nat) (rule : KeepRule) : RootSet :=
  match rule.keep graph node with
  | .ok symbols => ofSymbols symbols
  | .error message => ofSymbols [] [⟨rule.name, graph.name node, message⟩]

def ofClass (graph : SymbolGraph) (rules : List KeepRule) (node : Nat) : RootSet :=
  (rules.map (ofAnswer graph node)).foldl merge {}

def compute (graph : SymbolGraph) (rules : List KeepRule) : RootSet :=
  let roots := (graph.classes.map (ofClass graph rules)).foldl merge {}
  { roots with faults := roots.faults.mergeSort RuleFault.le }

end RootSet

end ClassShrink
