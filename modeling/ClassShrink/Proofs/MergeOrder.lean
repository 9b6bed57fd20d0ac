import ClassShrink.Graph.Draft
import ClassShrink.Proofs.Roots
import ClassShrink.Proofs.Sorting
import Mathlib.Data.List.Perm.Basic

/-! # Roots in any order

The root set of a graph is merged from what its classes contribute. Merging is not
commutative on faults, but they are sorted in the end. So the order of the rules and of
the classes makes no difference, nor in which groups the contributions are merged. -/

namespace ClassShrink

/-! ## The order of faults -/

namespace RuleFault

def key (fault : RuleFault) : String ×ₗ String ×ₗ String :=
  toLex (fault.rule, toLex (fault.className, fault.message))

theorem key_injective : Function.Injective key := by
  intro left right same
  cases left
  cases right
  simpa [key] using same

theorem le_iff (left right : RuleFault) : left.le right ↔ left.key ≤ right.key := by
  simp [le, key, Prod.Lex.toLex_le_toLex]

end RuleFault

/-! ## Groups of contributions -/

/-- In which groups the contributions of classes are merged. Empty contributions may
stand anywhere between them. -/
inductive MergeTree where
  | empty
  | single (node : Nat)
  | merged (left right : MergeTree)

namespace MergeTree

def classes : MergeTree → List Nat
  | .empty => []
  | .single node => [node]
  | .merged left right => left.classes ++ right.classes

def contribution (graph : SymbolGraph) (rules : List KeepRule) : MergeTree → RootSet
  | .empty => {}
  | .single node => RootSet.ofClass graph rules node
  | .merged left right =>
      (left.contribution graph rules).merge (right.contribution graph rules)

def compute (graph : SymbolGraph) (rules : List KeepRule) (tree : MergeTree) : RootSet :=
  let roots := tree.contribution graph rules
  { roots with faults := roots.faults.mergeSort RuleFault.le }

variable {graph : SymbolGraph} {rules : List KeepRule}

theorem mem_contribution_iff (tree : MergeTree) (symbol : Nat) :
    symbol ∈ (tree.contribution graph rules).symbols ↔
      ∃ node ∈ tree.classes, ∃ rule ∈ rules, rule.Keeps graph node symbol := by
  induction tree with
  | empty => simp [contribution, classes]
  | single node => simp [contribution, classes, RootSet.mem_ofClass_iff]
  | merged left right leftInduction rightInduction =>
      simp only [contribution, classes, RootSet.mem_merge_iff, leftInduction, rightInduction,
        List.mem_append, or_and_right, exists_or]

theorem contribution_nodup (tree : MergeTree) :
    (tree.contribution graph rules).symbols.Nodup := by
  induction tree with
  | empty => exact List.nodup_nil
  | single node => exact RootSet.ofClass_nodup node
  | merged left right leftInduction rightInduction =>
      exact RootSet.merge_nodup leftInduction rightInduction

theorem contribution_faults (tree : MergeTree) :
    (tree.contribution graph rules).faults =
      tree.classes.flatMap fun node => rules.filterMap (·.fault? graph node) := by
  induction tree with
  | empty => rfl
  | single node => simp [contribution, classes, RootSet.ofClass_faults]
  | merged left right leftInduction rightInduction =>
      simp only [contribution, classes, RootSet.merge, leftInduction, rightInduction,
        List.flatMap_append]

def oneByOne (nodes : List Nat) : MergeTree :=
  nodes.foldl (fun tree node => .merged tree (.single node)) .empty

theorem classes_foldl (nodes : List Nat) (tree : MergeTree) :
    (nodes.foldl (fun tree node => .merged tree (.single node)) tree).classes =
      tree.classes ++ nodes := by
  induction nodes generalizing tree with
  | nil => simp
  | cons node nodes induction => simp [induction, classes]

theorem contribution_foldl (nodes : List Nat) (tree : MergeTree) :
    (nodes.foldl (fun tree node => .merged tree (.single node)) tree).contribution graph rules =
      (nodes.map (RootSet.ofClass graph rules)).foldl RootSet.merge
        (tree.contribution graph rules) := by
  induction nodes generalizing tree with
  | nil => rfl
  | cons node nodes induction => simp [induction, contribution]

theorem classes_oneByOne (nodes : List Nat) : (oneByOne nodes).classes = nodes := by
  rw [oneByOne, classes_foldl]
  rfl

theorem compute_oneByOne :
    (oneByOne graph.classes).compute graph rules = RootSet.compute graph rules := by
  unfold compute RootSet.compute oneByOne
  rw [contribution_foldl]
  rfl

end MergeTree

/-! ## What a root set collects -/

def KeepRule.failingOn (rule : KeepRule) (node : Nat) (message : String) : KeepRule :=
  { rule with
    keep := fun graph place =>
      if place = node then .error message else rule.keep graph place }

theorem KeepRule.failingOn_keeps_iff (rule : KeepRule) (node : Nat) (message : String)
    {graph : SymbolGraph} {place symbol : Nat} :
    (rule.failingOn node message).Keeps graph place symbol ↔
      place ≠ node ∧ rule.Keeps graph place symbol := by
  by_cases fails : place = node <;> simp [Keeps, failingOn, fails]

namespace RootSet

/-- A root set holds all that some rules answer on the classes of a graph: the symbols
once each, and in order one fault for each rule and each class on which it fails. -/
structure Collects (graph : SymbolGraph) (rules : List KeepRule) (roots : RootSet) : Prop where
  symbols : ∀ symbol, symbol ∈ roots.symbols ↔
    ∃ node ∈ graph.classes, ∃ rule ∈ rules, rule.Keeps graph node symbol
  once : roots.symbols.Nodup
  sorted : roots.faults.Pairwise fun fault other => fault.key ≤ other.key
  faults : roots.faults.Perm
    (graph.classes.flatMap fun node => rules.filterMap (·.fault? graph node))

structure Same (left right : RootSet) : Prop where
  symbols : left.symbols.Perm right.symbols
  faults : left.faults = right.faults

variable {graph other : SymbolGraph} {rules others : List KeepRule} {roots left right : RootSet}

theorem Collects.same (leftCollects : Collects graph rules left)
    (rightCollects : Collects graph rules right) : left.Same right where
  symbols := by
    rw [List.perm_ext_iff_of_nodup leftCollects.once rightCollects.once]
    intro symbol
    rw [leftCollects.symbols, rightCollects.symbols]
  faults :=
    eq_of_perm_of_sorted RuleFault.key_injective
      (leftCollects.faults.trans rightCollects.faults.symm)
      leftCollects.sorted rightCollects.sorted

theorem Collects.of_perm (permuted : others.Perm rules) (collects : Collects graph others roots) :
    Collects graph rules roots where
  symbols symbol := by
    simp only [collects.symbols, permuted.mem_iff]
  once := collects.once
  sorted := collects.sorted
  faults := by
    refine collects.faults.trans (List.Perm.flatMap_left _ fun node _ => ?_)
    exact permuted.filterMap _

/-- All that matters of a graph is which classes it has, their names, and what the rules
answer on them. -/
theorem Collects.of_graph (listed : other.classes.Perm graph.classes)
    (agree : ∀ node ∈ graph.classes, other.name node = graph.name node ∧
      ∀ rule ∈ rules, rule.keep other node = rule.keep graph node)
    (collects : Collects other rules roots) : Collects graph rules roots where
  symbols symbol := by
    rw [collects.symbols]
    simp only [listed.mem_iff]
    refine exists_congr fun node => and_congr_right fun isClass => ?_
    refine exists_congr fun rule => and_congr_right fun inRules => ?_
    rw [KeepRule.Keeps, (agree node isClass).2 rule inRules, KeepRule.Keeps]
  once := collects.once
  sorted := collects.sorted
  faults := by
    refine collects.faults.trans ((listed.flatMap_right _).trans (.of_eq ?_))
    refine List.flatMap_congr fun node isClass => ?_
    refine List.filterMap_congr fun rule inRules => ?_
    rw [KeepRule.fault?, (agree node isClass).1, (agree node isClass).2 rule inRules,
      KeepRule.fault?]

end RootSet

theorem MergeTree.compute_collects {graph : SymbolGraph} {tree : MergeTree}
    (listed : tree.classes.Perm graph.classes) (rules : List KeepRule) :
    RootSet.Collects graph rules (tree.compute graph rules) where
  symbols symbol := by
    have contributed : symbol ∈ (tree.compute graph rules).symbols ↔
        symbol ∈ (tree.contribution graph rules).symbols := Iff.rfl
    simp only [contributed, mem_contribution_iff, listed.mem_iff]
  once := tree.contribution_nodup
  sorted := mergeSort_pairwise RuleFault.le_iff _
  faults := by
    refine (List.mergeSort_perm _ _).trans ?_
    rw [contribution_faults]
    exact listed.flatMap_right _

theorem RootSet.compute_collects (graph : SymbolGraph) (rules : List KeepRule) :
    Collects graph rules (compute graph rules) := by
  rw [← MergeTree.compute_oneByOne]
  exact MergeTree.compute_collects (.of_eq (MergeTree.classes_oneByOne _)) rules

/-- The root set is the union of all answers and the sorted list of all failures. It is
the same for every order of the rules and of the classes, and along every tree by which
the contributions of the classes are merged. A rule that fails on a class takes away
nothing but its answer there. -/
theorem RootSet.compute_independent_of_order (graph : SymbolGraph) {rules others : List KeepRule}
    (permuted : others.Perm rules) :
    Collects graph rules (compute graph rules) ∧
    (∀ tree : MergeTree, tree.classes.Perm graph.classes →
      (tree.compute graph others).Same (compute graph rules)) ∧
    (∀ other : SymbolGraph, other.classes.Perm graph.classes →
      (∀ node ∈ graph.classes, other.name node = graph.name node ∧
        ∀ rule ∈ rules, rule.keep other node = rule.keep graph node) →
      (compute other others).Same (compute graph rules)) ∧
    ∀ (before : List KeepRule) (rule : KeepRule) (after : List KeepRule) (node : Nat)
        (message : String) (symbol : Nat),
      symbol ∈ (compute graph (before ++ rule.failingOn node message :: after)).symbols ↔
        (∃ place ∈ graph.classes, ∃ other ∈ before ++ after, other.Keeps graph place symbol) ∨
          ∃ place ∈ graph.classes, place ≠ node ∧ rule.Keeps graph place symbol := by
  have collects := compute_collects graph rules
  refine ⟨collects, ?_, ?_, ?_⟩
  · intro tree listed
    exact ((MergeTree.compute_collects listed others).of_perm permuted).same collects
  · intro other listed agree
    exact (((compute_collects other others).of_perm permuted).of_graph listed agree).same collects
  · intro before rule after node message symbol
    rw [mem_compute_iff, ← exists_or]
    refine exists_congr fun place => ?_
    rw [← and_or_left]
    refine and_congr_right fun _ => ?_
    simp only [List.mem_append, List.mem_cons, or_and_right, exists_or, exists_eq_left,
      KeepRule.failingOn_keeps_iff]
    exact or_left_comm.trans or_comm

namespace TwiceFailing

/-! Two rules with one name that fail on the same class for the same reason. -/

def graph : SymbolGraph :=
  ((({} : Draft).addClass "Main").addClass "Spare").view

def picky : KeepRule :=
  KeepRule.failing "picky" "Spare" "unsupported"

def rules : List KeepRule :=
  [picky, picky, KeepRule.entryPoints ["Main", "Spare"]]

def tree : MergeTree :=
  .merged (.single 1) (.merged .empty (.single 0))

theorem faults_remain_apart :
    rules.reverse.Perm rules ∧ tree.classes.Perm graph.classes ∧
      (tree.compute graph rules.reverse).faults =
        [⟨"picky", "Spare", "unsupported"⟩, ⟨"picky", "Spare", "unsupported"⟩] ∧
      1 ∈ (tree.compute graph rules.reverse).symbols := by
  have permuted : rules.reverse.Perm rules := List.reverse_perm _
  have listed : tree.classes.Perm graph.classes := by decide
  rcases RootSet.compute_independent_of_order graph permuted with ⟨collects, along, _, _⟩
  have same := along tree listed
  have failures : (graph.classes.flatMap fun node => rules.filterMap (·.fault? graph node)) =
      List.replicate 2 ⟨"picky", "Spare", "unsupported"⟩ := by decide +kernel
  refine ⟨permuted, listed, ?_, ?_⟩
  · rw [same.faults]
    exact List.perm_replicate.mp (failures ▸ collects.faults)
  · rw [same.symbols.mem_iff, collects.symbols]
    exact ⟨1, by decide, KeepRule.entryPoints ["Main", "Spare"], by simp [rules], [1],
      by rfl, by decide⟩

end TwiceFailing

end ClassShrink
