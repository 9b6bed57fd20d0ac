import ClassShrink.Shrink

/-! # The log of a shrink pass

What a pass has to tell about its parts, from the same values that the pass
itself computes. A part that fails tells nothing, and nothing follows it. -/

namespace ClassShrink

inductive LogLevel where
  | debug
  | info
  | warn
deriving DecidableEq, Repr

def LogLevel.name : LogLevel → String
  | .debug => "DEBUG"
  | .info => "INFO"
  | .warn => "WARN"

structure LogLine where
  level : LogLevel
  message : String
deriving DecidableEq, Repr

namespace LogLine

/-- A character of a message. The characters that a terminal may act upon are
written by their codes: the bell, backspace, form feed, escape and delete, and
the control characters beyond ASCII. -/
def escape (character : Char) : List Char :=
  let code := Nat.toDigits 16 character.toNat
  if character.toNat = 0x07 ∨ character.toNat = 0x08 ∨ character.toNat = 0x0C then
    '\\' :: 'x' :: '0' :: code
  else if character.toNat = 0x1B ∨ character.toNat = 0x7F then '\\' :: 'x' :: code
  else if 0x80 ≤ character.toNat ∧ character.toNat ≤ 0x9F then
    '\\' :: 'u' :: '\x7b' :: code ++ ['\x7d']
  else [character]

example : escape '\x0c' = ['\\', 'x', '0', 'c'] := by decide

example : escape '\u009b' = ['\\', 'u', '\x7b', '9', 'b', '\x7d'] := by decide

def text (line : LogLine) : String :=
  line.level.name ++ " " ++ String.ofList (line.message.toList.flatMap escape)

def written (log : List LogLine) : List String :=
  log.flatMap fun line => (Text.pieces '\n' line.text.toList).map String.ofList

end LogLine

namespace ProgramGraph

/-! ## What a sweep drops -/

def unreachedMembers (graph : ProgramGraph) (reached : List Nat) (declaration : ClassDecl)
    (position : Nat) : List Member :=
  (declaration.members.zipIdx.filter fun (_, index) =>
    graph.memberNode position index ∉ reached).map Prod.fst

def reachedClasses (graph : ProgramGraph) (reached : List Nat) : List (ClassDecl × Nat) :=
  graph.program.classes.zipIdx.filter fun (_, position) => graph.classNode position ∈ reached

def unreachedClasses (graph : ProgramGraph) (reached : List Nat) : List ClassDecl :=
  (graph.program.classes.zipIdx.filter fun (_, position) =>
    graph.classNode position ∉ reached).map Prod.fst

def thinnedNames (graph : ProgramGraph) (reached : List Nat) : List String :=
  (graph.reachedClasses reached).flatMap fun (declaration, position) =>
    (graph.unreachedMembers reached declaration position).map
      (·.qualifiedName declaration.name)

end ProgramGraph

namespace Shrink

/-! ## Parts -/

def graphLog (graph : ProgramGraph) : List LogLine :=
  let view := graph.view
  (view.boundaries.map fun node => ⟨.debug, "Opaque boundary: " ++ view.name node⟩) ++
    [⟨.info, s!"Graph: {view.size} nodes, {graph.edges.length} edges, " ++
      s!"{view.boundaries.length} boundary nodes, {graph.overrideIndex.size} overrides"⟩]

def ruleLog (view : SymbolGraph) (node : Nat) (rule : KeepRule) : List LogLine :=
  match rule.keep view node with
  | .ok symbols => (symbols.filterMap (rule.note? view node)).map fun note => ⟨.debug, note⟩
  | .error message =>
      [⟨.warn, (⟨rule.name, view.name node, message⟩ : RuleFault).text⟩]

def rootsLog (view : SymbolGraph) (rules : List KeepRule) (roots : RootSet) : List LogLine :=
  (view.classes.flatMap fun node => rules.flatMap (ruleLog view node)) ++
    [⟨.info, s!"Keep rules: {roots.size} roots from {rules.length} rules " ++
      s!"({roots.faults.length} faults)"⟩]

def markLog (view : SymbolGraph) (schedule : Schedule) (roots : RootSet) (reached : List Nat) :
    List LogLine :=
  let rounds :=
    match schedule with
    | .sequential _ => []
    | .parallel =>
        let count := (view.frontiers roots.symbols).length
        [⟨.debug, s!"Parallel mark finished after {count} rounds"⟩]
  rounds ++
    [⟨.info, s!"Mark: {reached.length} symbols reached from {roots.size} roots"⟩]

def sweepLog (graph : ProgramGraph) (reached : List Nat) (report : SweepReport) : List LogLine :=
  let removed := report.removedCounts
  ((graph.unreachedClasses reached).map fun declaration =>
      ⟨.debug, "Removing class " ++ declaration.name⟩) ++
    ((graph.thinnedNames reached).map fun name => ⟨.debug, "Removing " ++ name⟩) ++
    [⟨.info, s!"Sweep: removed {removed.classes} classes, {removed.methods} methods, " ++
        s!"{removed.fields} fields"⟩,
      ⟨.info, s!"Shrink complete: kept {report.retainedCounts.classes} classes, " ++
        s!"removed {report.totalRemoved} symbols"⟩]

/-! ## Passes -/

def log (config : Config) (program : Program) : List LogLine :=
  let schedule := config.analysis.schedule
  let rules := KeepRule.ofConfig config
  ⟨.info, s!"Building symbol graph for {program.classes.length} classes..."⟩ ::
    match ProgramGraph.build program config.analysis.parallel with
    | .error _ => []
    | .ok graph =>
        let view := graph.view
        let roots := RootSet.compute view rules
        graphLog graph ++ rootsLog view rules roots ++
          match view.mark schedule roots.symbols with
          | .error _ => []
          | .ok reached =>
              markLog view schedule roots reached ++
                match graph.sweep reached with
                | .error _ => []
                | .ok outcome => sweepLog graph reached outcome.report

end Shrink

end ClassShrink
