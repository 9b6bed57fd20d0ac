import ClassShrink.Keep.Roots
import ClassShrink.Proofs.Graph

/-! # Which symbols a configuration selects

The roots are the union of what the rules keep on the classes, each symbol once.
The rules of a configuration never fail, and what they keep depends on nothing
but the declaration of the symbol and of its class. -/

namespace ClassShrink

open ProgramGraph (ofProgram)

/-! ## Unions -/

def KeepRule.Keeps (rule : KeepRule) (graph : SymbolGraph) (node symbol : Nat) : Prop :=
  ∃ symbols, rule.keep graph node = .ok symbols ∧ symbol ∈ symbols

def KeepRule.fault? (rule : KeepRule) (graph : SymbolGraph) (node : Nat) : Option RuleFault :=
  match rule.keep graph node with
  | .ok _ => none
  | .error message => some ⟨rule.name, graph.name node, message⟩

namespace RootSet

theorem mem_merge_iff (left right : RootSet) (symbol : Nat) :
    symbol ∈ (left.merge right).symbols ↔ symbol ∈ left.symbols ∨ symbol ∈ right.symbols := by
  by_cases inLeft : symbol ∈ left.symbols <;> simp [merge, inLeft]

theorem merge_nodup {left right : RootSet} (leftDistinct : left.symbols.Nodup)
    (rightDistinct : right.symbols.Nodup) : (left.merge right).symbols.Nodup := by
  refine List.Nodup.append leftDistinct (rightDistinct.filter _) ?_
  intro symbol inLeft inRight
  exact of_decide_eq_true (List.mem_filter.mp inRight).2 inLeft

theorem mem_foldl_merge_iff (sets : List RootSet) (initial : RootSet) (symbol : Nat) :
    symbol ∈ (sets.foldl merge initial).symbols ↔
      symbol ∈ initial.symbols ∨ ∃ set ∈ sets, symbol ∈ set.symbols := by
  induction sets generalizing initial with
  | nil => simp
  | cons set sets induction => simp [induction, mem_merge_iff, or_assoc]

theorem foldl_merge_nodup {sets : List RootSet} {initial : RootSet}
    (initialDistinct : initial.symbols.Nodup) (distinct : ∀ set ∈ sets, set.symbols.Nodup) :
    (sets.foldl merge initial).symbols.Nodup := by
  induction sets generalizing initial with
  | nil => exact initialDistinct
  | cons set sets induction =>
      refine induction (merge_nodup initialDistinct (distinct set List.mem_cons_self)) ?_
      exact fun other member => distinct other (List.mem_cons_of_mem _ member)

theorem foldl_merge_faults (sets : List RootSet) (initial : RootSet) :
    (sets.foldl merge initial).faults = initial.faults ++ sets.flatMap RootSet.faults := by
  induction sets generalizing initial with
  | nil => simp
  | cons set sets induction =>
      rw [List.foldl_cons, induction, List.flatMap_cons, merge, List.append_assoc]

variable {graph : SymbolGraph} {rules : List KeepRule}

theorem mem_ofAnswer_iff (node : Nat) (rule : KeepRule) (symbol : Nat) :
    symbol ∈ (ofAnswer graph node rule).symbols ↔ rule.Keeps graph node symbol := by
  unfold ofAnswer KeepRule.Keeps
  cases rule.keep graph node with
  | error message => simp [ofSymbols]
  | ok symbols => simp [ofSymbols]

theorem ofAnswer_nodup (node : Nat) (rule : KeepRule) :
    (ofAnswer graph node rule).symbols.Nodup := by
  unfold ofAnswer
  cases rule.keep graph node <;> exact Worklist.nodup_eraseDups _

theorem ofAnswer_faults (node : Nat) (rule : KeepRule) :
    (ofAnswer graph node rule).faults = (rule.fault? graph node).toList := by
  unfold ofAnswer KeepRule.fault?
  cases rule.keep graph node <;> rfl

theorem mem_ofClass_iff (node symbol : Nat) :
    symbol ∈ (ofClass graph rules node).symbols ↔
      ∃ rule ∈ rules, rule.Keeps graph node symbol := by
  simp [ofClass, mem_foldl_merge_iff, mem_ofAnswer_iff]

theorem ofClass_nodup (node : Nat) : (ofClass graph rules node).symbols.Nodup := by
  refine foldl_merge_nodup List.nodup_nil ?_
  intro set listed
  rcases List.mem_map.mp listed with ⟨rule, _, rfl⟩
  exact ofAnswer_nodup node rule

theorem ofClass_faults (node : Nat) :
    (ofClass graph rules node).faults = rules.filterMap (·.fault? graph node) := by
  rw [ofClass, foldl_merge_faults, List.flatMap_map, List.nil_append,
    List.filterMap_eq_flatMap_toList]
  simp only [ofAnswer_faults]

/-- The roots are what some rule keeps on some class. -/
theorem mem_compute_iff (symbol : Nat) :
    symbol ∈ (compute graph rules).symbols ↔
      ∃ node ∈ graph.classes, ∃ rule ∈ rules, rule.Keeps graph node symbol := by
  have ofClasses : symbol ∈ (compute graph rules).symbols ↔
      symbol ∈ ((graph.classes.map (ofClass graph rules)).foldl merge {}).symbols := Iff.rfl
  simp [ofClasses, mem_foldl_merge_iff, mem_ofClass_iff]

theorem compute_nodup : (compute graph rules).symbols.Nodup := by
  refine foldl_merge_nodup List.nodup_nil ?_
  intro set listed
  rcases List.mem_map.mp listed with ⟨node, _, rfl⟩
  exact ofClass_nodup node

theorem compute_faults_eq_nil
    (answer : ∀ rule ∈ rules, ∀ node, ∃ symbols, rule.keep graph node = .ok symbols) :
    (compute graph rules).faults = [] := by
  have faultless (node : Nat) : (ofClass graph rules node).faults = [] := by
    rw [ofClass_faults, List.filterMap_eq_nil_iff]
    intro rule listed
    rcases answer rule listed node with ⟨symbols, answered⟩
    rw [KeepRule.fault?, answered]
  have faults : ((graph.classes.map (ofClass graph rules)).foldl merge {}).faults = [] := by
    rw [foldl_merge_faults, List.flatMap_map, List.nil_append, List.flatMap_eq_nil_iff]
    exact fun node _ => faultless node
  simp only [compute, faults, List.mergeSort_nil]

end RootSet

theorem KeepRule.mem_ofConfig_iff {config : Config} (rule : KeepRule) :
    rule ∈ ofConfig config ↔
      (∃ pattern ∈ config.keep, namePattern pattern.suffix pattern.methods = rule) ∨
      (∃ marker ∈ config.keepAnnotations, markedBy marker = rule) ∨
      (config.entryPoints ≠ [] ∧ rule = entryPoints config.entryPoints) := by
  by_cases none : config.entryPoints = [] <;> simp [ofConfig, none]

theorem KeepRule.ofConfig_answers (config : Config) (graph : SymbolGraph) :
    ∀ rule ∈ ofConfig config, ∀ node, ∃ symbols, rule.keep graph node = .ok symbols := by
  intro rule listed node
  rcases (mem_ofConfig_iff rule).mp listed with
    ⟨pattern, _, rfl⟩ | ⟨marker, _, rfl⟩ | ⟨_, rfl⟩
  · exact ⟨_, rfl⟩
  · exact ⟨_, rfl⟩
  · exact ⟨_, rfl⟩

/-! ## What the rules look at -/

namespace ProgramGraph

variable {program : Program} {position index : Nat} {declaration : ClassDecl} {member : Member}

theorem mem_view_classes_iff (node : Nat) :
    node ∈ (ofProgram program).view.classes ↔
      ∃ position declaration, program.classes[position]? = some declaration ∧
        node = program.classNode position := by
  have listed : (ofProgram program).view.classes = program.positions.map program.classNode := rfl
  rw [listed, List.mem_map]
  constructor
  · rintro ⟨position, inside, rfl⟩
    exact ⟨position, _, List.getElem?_eq_getElem (List.mem_range.mp inside), rfl⟩
  · rintro ⟨position, declaration, declared, rfl⟩
    exact ⟨position, Program.mem_positions_of_declared declared, rfl⟩

section Class

variable (declared : program.classes[position]? = some declaration)

include declared

theorem view_name_classNode :
    (ofProgram program).view.name (program.classNode position) = declaration.name :=
  congrArg SymbolNode.name (node_classNode declared)

theorem view_annotations_classNode :
    (ofProgram program).view.annotations (program.classNode position) =
      declaration.annotations := by
  have same : (ofProgram program).program = program := rfl
  simp [view, node_classNode declared, same, declared]

theorem view_members_classNode :
    (ofProgram program).view.members (program.classNode position) =
      memberRow program (declaration, position) := by
  simp [view, node_classNode declared, memberNodesAt_eq declared]

theorem mem_view_members_iff (node : Nat) :
    node ∈ (ofProgram program).view.members (program.classNode position) ↔
      ∃ index member, declaration.members[index]? = some member ∧
        node = program.memberNode ⟨position, index⟩ := by
  rw [view_members_classNode declared, memberRow, List.mem_map]
  constructor
  · rintro ⟨index, within, rfl⟩
    exact ⟨index, _, List.getElem?_eq_getElem (List.mem_range.mp within), rfl⟩
  · rintro ⟨index, member, has, rfl⟩
    exact ⟨index, List.mem_range.mpr (List.getElem?_eq_some_iff.mp has).1, rfl⟩

variable (has : declaration.members[index]? = some member)

include has

theorem view_name_memberNode :
    (ofProgram program).view.name (program.memberNode ⟨position, index⟩) =
      member.qualifiedName declaration.name :=
  congrArg SymbolNode.name (node_memberNode declared has)

theorem view_annotations_memberNode :
    (ofProgram program).view.annotations (program.memberNode ⟨position, index⟩) =
      member.annotations := by
  have atNode : (ofProgram program).memberAt? position index = some member := by
    have same : (ofProgram program).program = program := rfl
    simp [memberAt?, same, declared, has]
  simp [view, node_memberNode declared has, atNode]

end Class

end ProgramGraph

/-! ## What each rule keeps -/

namespace KeepRule

theorem keeps_iff_of_ok {rule : KeepRule} {view : SymbolGraph} {node symbol : Nat}
    {symbols : List Nat}
    (answered : rule.keep view node = .ok symbols) :
    rule.Keeps view node symbol ↔ symbol ∈ symbols := by
  simp [Keeps, answered]

theorem isEntered_iff (entries : List String) (name : String) :
    isEntered entries name ↔
      ∃ entry ∈ entries, entry = name ∨
        (':' ∉ entry.toList ∧ Text.beginsWith name (entry ++ ":")) := by
  simp only [isEntered, List.contains_eq_mem, Bool.or_eq_true, decide_eq_true_eq,
    List.any_eq_true, Bool.and_eq_true, Bool.not_eq_true', decide_eq_false_iff_not, and_or_left,
    exists_or, exists_eq_right]

variable {program : Program} {position symbol : Nat} {declaration : ClassDecl}
  (declared : program.classes[position]? = some declaration)

include declared

theorem namePattern_keeps_iff (pattern : KeepPattern) :
    (namePattern pattern.suffix pattern.methods).Keeps (ofProgram program).view
        (program.classNode position) symbol ↔
      Text.endsWith declaration.name pattern.suffix ∧
        ∃ index member, declaration.members[index]? = some member ∧ member.kind = .method ∧
          namesMethod pattern.methods (member.qualifiedName declaration.name) ∧
          symbol = program.memberNode ⟨position, index⟩ := by
  rw [keeps_iff_of_ok rfl, ProgramGraph.view_name_classNode declared]
  by_cases ends : Text.endsWith declaration.name pattern.suffix
  · simp only [ends, if_true, List.mem_filter, SymbolGraph.methods, decide_eq_true_eq,
      ProgramGraph.mem_view_members_iff declared, true_and]
    constructor
    · rintro ⟨⟨⟨index, member, has, rfl⟩, isMethod⟩, named⟩
      have kind := ProgramGraph.kind_memberNode declared has
      rw [isMethod] at kind
      rw [ProgramGraph.view_name_memberNode declared has] at named
      refine ⟨index, member, has, ?_, named, rfl⟩
      cases isField : member.kind with
      | method => rfl
      | field => simp [isField, MemberKind.symbolKind] at kind
    · rintro ⟨index, member, has, isMethod, named, rfl⟩
      have kind := ProgramGraph.kind_memberNode declared has
      rw [isMethod] at kind
      refine ⟨⟨⟨index, member, has, rfl⟩, kind⟩, ?_⟩
      rw [ProgramGraph.view_name_memberNode declared has]
      exact named
  · simp [ends]

theorem markedBy_keeps_iff (marker : String) :
    (markedBy marker).Keeps (ofProgram program).view (program.classNode position) symbol ↔
      (declaration.annotations.any (carriesMarker marker) ∧
        symbol = program.classNode position) ∨
      ∃ index member, declaration.members[index]? = some member ∧
        member.annotations.any (carriesMarker marker) ∧
        symbol = program.memberNode ⟨position, index⟩ := by
  rw [keeps_iff_of_ok rfl, List.mem_filter, List.mem_cons,
    ProgramGraph.mem_view_members_iff declared]
  constructor
  · rintro ⟨rfl | ⟨index, member, has, rfl⟩, marked⟩
    · rw [ProgramGraph.view_annotations_classNode declared] at marked
      exact .inl ⟨marked, rfl⟩
    · rw [ProgramGraph.view_annotations_memberNode declared has] at marked
      exact .inr ⟨index, member, has, marked, rfl⟩
  · rintro (⟨marked, rfl⟩ | ⟨index, member, has, marked, rfl⟩)
    · rw [ProgramGraph.view_annotations_classNode declared]
      exact ⟨.inl rfl, marked⟩
    · rw [ProgramGraph.view_annotations_memberNode declared has]
      exact ⟨.inr ⟨index, member, has, rfl⟩, marked⟩

theorem entryPoints_keeps_iff (entries : List String) :
    (entryPoints entries).Keeps (ofProgram program).view (program.classNode position) symbol ↔
      (declaration.name ∈ entries ∧ symbol = program.classNode position) ∨
      ∃ index member, declaration.members[index]? = some member ∧
        isEntered entries (member.qualifiedName declaration.name) ∧
        symbol = program.memberNode ⟨position, index⟩ := by
  rw [keeps_iff_of_ok rfl, List.mem_append, List.mem_filter,
    ProgramGraph.view_name_classNode declared, ProgramGraph.mem_view_members_iff declared]
  refine or_congr ?_ ⟨?_, ?_⟩
  · by_cases entered : declaration.name ∈ entries <;> simp [entered]
  · rintro ⟨⟨index, member, has, rfl⟩, entered⟩
    rw [ProgramGraph.view_name_memberNode declared has] at entered
    exact ⟨index, member, has, entered, rfl⟩
  · rintro ⟨index, member, has, entered, rfl⟩
    rw [ProgramGraph.view_name_memberNode declared has]
    exact ⟨⟨index, member, has, rfl⟩, entered⟩

end KeepRule

/-! ## Selected names -/

/-- A tag on the class or member with a name carries a marker of the
configuration. -/
inductive Config.Marks (config : Config) (program : Program) : String → Prop
  | ofClass {declaration : ClassDecl} {marker : String} :
      declaration ∈ program.classes → marker ∈ config.keepAnnotations →
      declaration.annotations.any (KeepRule.carriesMarker marker) →
        Marks config program declaration.name
  | ofMember {declaration : ClassDecl} {member : Member} {marker : String} :
      declaration ∈ program.classes → member ∈ declaration.members →
      marker ∈ config.keepAnnotations →
      member.annotations.any (KeepRule.carriesMarker marker) →
        Marks config program (member.qualifiedName declaration.name)

/-- The configuration asks to keep the class or member with a name: a method by a
pattern, anything by a marker, or an entry point. -/
inductive Config.Selects (config : Config) (program : Program) : String → Prop
  | named {declaration : ClassDecl} {member : Member} {pattern : KeepPattern} :
      declaration ∈ program.classes → member ∈ declaration.members → member.kind = .method →
      pattern ∈ config.keep → Text.endsWith declaration.name pattern.suffix →
      KeepRule.namesMethod pattern.methods (member.qualifiedName declaration.name) →
        Selects config program (member.qualifiedName declaration.name)
  | marked {name : String} : config.Marks program name → Selects config program name
  | enteredClass {declaration : ClassDecl} :
      declaration ∈ program.classes → declaration.name ∈ config.entryPoints →
        Selects config program declaration.name
  | enteredMember {declaration : ClassDecl} {member : Member} :
      declaration ∈ program.classes → member ∈ declaration.members →
      KeepRule.isEntered config.entryPoints (member.qualifiedName declaration.name) →
        Selects config program (member.qualifiedName declaration.name)

namespace KeepRule

variable {config : Config} {program : Program}

theorem selects_of_keeps {rule : KeepRule} (listed : rule ∈ ofConfig config) {position : Nat}
    {declaration : ClassDecl} (declared : program.classes[position]? = some declaration)
    {symbol : Nat}
    (keeps : rule.Keeps (ofProgram program).view (program.classNode position) symbol) :
    ∃ name, program.symbolNames[symbol]? = some name ∧ config.Selects program name := by
  have isClass := List.mem_of_getElem? declared
  rcases (mem_ofConfig_iff rule).mp listed with
    ⟨pattern, inConfig, rfl⟩ | ⟨marker, inConfig, rfl⟩ | ⟨_, rfl⟩
  · rcases (namePattern_keeps_iff declared pattern).mp keeps with
      ⟨ends, index, member, has, isMethod, names, rfl⟩
    exact ⟨_, Program.symbolNames_memberNode declared has,
      .named isClass (List.mem_of_getElem? has) isMethod inConfig ends names⟩
  · rcases (markedBy_keeps_iff declared marker).mp keeps with
      ⟨carried, rfl⟩ | ⟨index, member, has, carried, rfl⟩
    · exact ⟨_, Program.symbolNames_classNode declared,
        .marked (.ofClass isClass inConfig carried)⟩
    · exact ⟨_, Program.symbolNames_memberNode declared has,
        .marked (.ofMember isClass (List.mem_of_getElem? has) inConfig carried)⟩
  · rcases (entryPoints_keeps_iff declared _).mp keeps with
      ⟨entered, rfl⟩ | ⟨index, member, has, entered, rfl⟩
    · exact ⟨_, Program.symbolNames_classNode declared, .enteredClass isClass entered⟩
    · exact ⟨_, Program.symbolNames_memberNode declared has,
        .enteredMember isClass (List.mem_of_getElem? has) entered⟩

theorem keeps_of_selects {name : String} (selects : config.Selects program name) :
    ∃ position declaration symbol, program.classes[position]? = some declaration ∧
      program.symbolNames[symbol]? = some name ∧
      ∃ rule ∈ ofConfig config,
        rule.Keeps (ofProgram program).view (program.classNode position) symbol := by
  cases selects with
  | named isClass isMember isMethod inConfig ends names =>
      rcases List.mem_iff_getElem?.mp isClass with ⟨position, declared⟩
      rcases List.mem_iff_getElem?.mp isMember with ⟨index, has⟩
      exact ⟨position, _, _, declared, Program.symbolNames_memberNode declared has, _,
        (mem_ofConfig_iff _).mpr (.inl ⟨_, inConfig, rfl⟩),
        (namePattern_keeps_iff declared _).mpr
          ⟨ends, index, _, has, isMethod, names, rfl⟩⟩
  | marked marks =>
      cases marks with
      | ofClass isClass inConfig carried =>
          rcases List.mem_iff_getElem?.mp isClass with ⟨position, declared⟩
          exact ⟨position, _, _, declared, Program.symbolNames_classNode declared, _,
            (mem_ofConfig_iff _).mpr (.inr (.inl ⟨_, inConfig, rfl⟩)),
            (markedBy_keeps_iff declared _).mpr
              (.inl ⟨carried, rfl⟩)⟩
      | ofMember isClass isMember inConfig carried =>
          rcases List.mem_iff_getElem?.mp isClass with ⟨position, declared⟩
          rcases List.mem_iff_getElem?.mp isMember with ⟨index, has⟩
          exact ⟨position, _, _, declared, Program.symbolNames_memberNode declared has, _,
            (mem_ofConfig_iff _).mpr (.inr (.inl ⟨_, inConfig, rfl⟩)),
            (markedBy_keeps_iff declared _).mpr
              (.inr ⟨index, _, has, carried, rfl⟩)⟩
  | enteredClass isClass entered =>
      rcases List.mem_iff_getElem?.mp isClass with ⟨position, declared⟩
      exact ⟨position, _, _, declared, Program.symbolNames_classNode declared, _,
        (mem_ofConfig_iff _).mpr (.inr (.inr ⟨List.ne_nil_of_mem entered, rfl⟩)),
        (entryPoints_keeps_iff declared _).mpr
          (.inl ⟨entered, rfl⟩)⟩
  | enteredMember isClass isMember entered =>
      rcases List.mem_iff_getElem?.mp isClass with ⟨position, declared⟩
      rcases List.mem_iff_getElem?.mp isMember with ⟨index, has⟩
      have nonempty : config.entryPoints ≠ [] := by
        intro empty
        simp [empty, isEntered] at entered
      exact ⟨position, _, _, declared, Program.symbolNames_memberNode declared has, _,
        (mem_ofConfig_iff _).mpr (.inr (.inr ⟨nonempty, rfl⟩)),
        (entryPoints_keeps_iff declared _).mpr
          (.inr ⟨index, _, has, entered, rfl⟩)⟩

end KeepRule

def Config.roots (config : Config) (program : Program) : RootSet :=
  RootSet.compute (ofProgram program).view (KeepRule.ofConfig config)

theorem Config.mem_roots_iff {config : Config} {program : Program}
    (distinct : program.symbolNames.Nodup) (symbol : Nat) :
    symbol ∈ (config.roots program).symbols ↔
      ∃ name, program.symbolNames[symbol]? = some name ∧ config.Selects program name := by
  rw [roots, RootSet.mem_compute_iff]
  constructor
  · rintro ⟨node, isClass, rule, listed, keeps⟩
    rcases (ProgramGraph.mem_view_classes_iff node).mp isClass with
      ⟨position, declaration, declared, rfl⟩
    exact KeepRule.selects_of_keeps listed declared keeps
  · rintro ⟨name, placed, selects⟩
    rcases KeepRule.keeps_of_selects selects with
      ⟨position, declaration, same, declared, samePlaced, rule, listed, keeps⟩
    obtain rfl : symbol = same := Program.index_unique distinct placed samePlaced
    exact ⟨_, (ProgramGraph.mem_view_classes_iff _).mpr ⟨position, declaration, declared, rfl⟩,
      rule, listed, keeps⟩

theorem Config.roots_faults (config : Config) (program : Program) :
    (config.roots program).faults = [] :=
  RootSet.compute_faults_eq_nil (KeepRule.ofConfig_answers config _)

end ClassShrink
