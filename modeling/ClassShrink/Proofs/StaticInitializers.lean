import ClassShrink.Proofs.MemberKeys
import ClassShrink.Proofs.Representation

/-! # Static initializers by declaration and by name

A graph takes the static initializer of a class from the declaration of the class. It can
also be looked for in the qualified names of the methods. Where points and colons do
nothing but divide these names, both ways lead to the same method. -/

namespace ClassShrink

open ProgramGraph (ofProgram)

theorem find?_range_eq_findIdx? {α : Type} {elements : List α} {accepts : α → Bool}
    {test : Nat → Bool}
    (agree : ∀ index element, elements[index]? = some element → test index = accepts element) :
    (List.range elements.length).find? test = elements.findIdx? accepts := by
  have sameTest (index : Nat) (within : index < elements.length) :
      test index = accepts elements[index] :=
    agree index _ (List.getElem?_eq_getElem within)
  ext index
  rw [List.find?_range_eq_some, List.findIdx?_eq_some_iff_getElem, List.mem_range]
  constructor
  · intro found
    rcases found with ⟨accepted, within, earlier⟩
    refine ⟨within, sameTest index within ▸ accepted, ?_⟩
    intro other below
    have refused := earlier other below
    rw [sameTest other (below.trans within), Bool.not_eq_true'] at refused
    simp [refused]
  · intro found
    rcases found with ⟨within, accepted, earlier⟩
    refine ⟨(sameTest index within).trans accepted, within, ?_⟩
    intro other below
    have refused := earlier other below
    rw [sameTest other (below.trans within), Bool.not_eq_true']
    simpa using refused

namespace SymbolGraph

variable (graph : SymbolGraph) (node : Nat)

def namesInitializer : Bool :=
  graph.kind node = .method &&
    Text.holds (graph.name node) ("." ++ staticInitializerName ++ ":")

theorem initializerByName?_eq :
    graph.initializerByName? node = (graph.members node).find? graph.namesInitializer := by
  rw [initializerByName?, methods, List.find?_filter]
  congr 1
  funext member
  simp [namesInitializer]

theorem initializerByName?_eq_none (noMembers : graph.members node = []) :
    graph.initializerByName? node = none := by
  rw [initializerByName?_eq, noMembers, List.find?_nil]

end SymbolGraph

namespace ProgramGraph

variable {program : Program} {position index : Nat} {declaration : ClassDecl} {member : Member}

section Class

variable (named : program.WellNamed) (plain : program.PlainDescriptors)
  (declared : program.classes[position]? = some declaration)

include named plain declared

theorem namesInitializer_memberNode (has : declaration.members[index]? = some member) :
    (ofProgram program).view.namesInitializer (program.memberNode ⟨position, index⟩) =
      member.isStaticInitializer := by
  have point : '.' ∉ staticInitializerName.toList := by decide
  have colon : ':' ∉ staticInitializerName.toList := by decide
  have found := named.holds_qualifiedName_iff (List.mem_of_getElem? declared)
    (List.mem_of_getElem? has) plain point colon
  rw [SymbolGraph.namesInitializer, view_name_memberNode declared has,
    kind_memberNode declared has, Member.isStaticInitializer, Bool.eq_iff_iff, Bool.and_eq_true,
    found, Bool.and_eq_true, decide_eq_true_iff, decide_eq_true_iff, decide_eq_true_iff]
  cases member.kind <;> simp [MemberKind.symbolKind]

theorem initializerByName?_classNode :
    (ofProgram program).view.initializerByName? (program.classNode position) =
      (ofProgram program).initializerAt? position := by
  rw [SymbolGraph.initializerByName?_eq, view_members_classNode declared, memberRow, List.find?_map,
    initializerAt?_eq declared]
  congr 1
  apply find?_range_eq_findIdx?
  intro index member has
  exact namesInitializer_memberNode named plain declared has

end Class

/-! ## Symbols that are no classes -/

variable {node : Nat}

theorem staticInitializer?_memberNode (declared : program.classes[position]? = some declaration)
    (has : declaration.members[index]? = some member) :
    (ofProgram program).view.staticInitializer? (program.memberNode ⟨position, index⟩) = none := by
  simp [view, node_memberNode declared has]

theorem staticInitializer?_outside (outside : program.symbolNames.length ≤ node) :
    (ofProgram program).view.staticInitializer? node = none := by
  rcases node_outside outside with ⟨name, isBoundary⟩
  simp [view, isBoundary, SymbolNode.boundary]

/-- The static initializer that a class declares is the one that is found in the names of
its methods. No other symbol has one either way. -/
theorem initializers_found_by_name {graph : ProgramGraph} {parallel : Bool}
    (built : build program parallel = .ok graph) (named : program.WellNamed)
    (plain : program.PlainDescriptors) (node : Nat) :
    graph.view.staticInitializer? node = graph.view.initializerByName? node := by
  rcases build_eq_ok_iff.mp built with ⟨_, _, rfl⟩
  rcases place_cases program node with
    ⟨position, declaration, declared, rfl⟩ |
    ⟨position, index, declaration, member, declared, has, rfl⟩ | outside
  · rw [initializerByName?_classNode named plain declared]
    exact view_staticInitializer? declared
  · rw [staticInitializer?_memberNode declared has,
      SymbolGraph.initializerByName?_eq_none _ _ (members_memberNode declared has)]
  · rw [staticInitializer?_outside outside,
      SymbolGraph.initializerByName?_eq_none _ _ (members_outside outside)]

end ProgramGraph

namespace NamedInitializer

/-! A class with the name of static initializers in its own name, as the name of a field, at
the end of the name of a method and in descriptors. -/

def program : Program :=
  ⟨[{ name := "app.<clinit>"
      members :=
        [{ kind := .field, name := "<clinit>", descriptor := "I" },
          { kind := .method, name := "run", descriptor := "(<clinit>:)" },
          { kind := .method, name := "x<clinit>", descriptor := "()" },
          { kind := .method, name := "<clinit>", descriptor := "()" },
          { kind := .method, name := "<clinit>", descriptor := "(I)" }] }]⟩

theorem first_method_found :
    ∃ graph, ProgramGraph.build program = .ok graph ∧ program.WellNamed ∧
      program.PlainDescriptors ∧ graph.view.staticInitializer? 0 = some 4 ∧
      graph.view.initializerByName? 0 = some 4 := by
  have built : ProgramGraph.build program = .ok (ofProgram program) :=
    ProgramGraph.build_eq_ok_iff.mpr ⟨by decide +kernel, by decide +kernel, rfl⟩
  have named : program.WellNamed := ⟨by decide +kernel, by decide +kernel⟩
  have plain : program.PlainDescriptors := by
    unfold Program.PlainDescriptors
    decide +kernel
  have declared : (ofProgram program).view.staticInitializer? 0 = some 4 := by decide +kernel
  refine ⟨_, built, named, plain, declared, ?_⟩
  rw [← ProgramGraph.initializers_found_by_name built named plain 0]
  exact declared

end NamedInitializer

end ClassShrink
