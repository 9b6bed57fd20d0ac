import ClassShrink.Proofs.Lookup
import ClassShrink.Proofs.Remainder
import Mathlib.Data.List.Forall2

/-! # Walks over corresponding classes

Where the classes of two programs correspond, with the same names of parents,
the walks from corresponding classes go through corresponding classes in the same
order. This is so for what is left of a program. What a class on the way declares
is then the same as before as far as it is retained. -/

namespace ClassShrink

/-! ## First answers -/

section Answers

variable {α β γ δ : Type}

theorem optionRel_of_forward {relation : α → β → Prop} {left : Option α} {right : Option β}
    (forward : ∀ value, left = some value → ∃ other, right = some other ∧ relation value other)
    (backward : left = none → right = none) : Option.Rel relation left right := by
  cases left with
  | none =>
      rw [backward rfl]
      exact .none
  | some value =>
      rcases forward value rfl with ⟨other, rfl, related⟩
      exact .some related

theorem optionRel_cases {relation : α → β → Prop} {left : Option α} {right : Option β}
    (related : Option.Rel relation left right) :
    (left = none ∧ right = none) ∨
      ∃ value other, left = some value ∧ right = some other ∧ relation value other := by
  cases related with
  | none => exact .inl ⟨rfl, rfl⟩
  | some related => exact .inr ⟨_, _, rfl, rfl, related⟩

theorem isNone_iff_of_optionRel {relation : α → β → Prop} {left : Option α} {right : Option β}
    (related : Option.Rel relation left right) : left.isNone ↔ right.isNone := by
  cases related <;> simp

theorem findSome?_related {relation : α → β → Prop} {answers : γ → δ → Prop}
    {leftAnswer : α → Option γ} {rightAnswer : β → Option δ}
    (answersRelated : ∀ left right, relation left right →
      Option.Rel answers (leftAnswer left) (rightAnswer right))
    {lefts : List α} {rights : List β} (related : List.Forall₂ relation lefts rights) :
    Option.Rel answers (lefts.findSome? leftAnswer) (rights.findSome? rightAnswer) := by
  induction related with
  | nil => exact .none
  | @cons left right _ _ here _ induction =>
      rw [List.findSome?_cons, List.findSome?_cons]
      have answered := answersRelated left right here
      generalize leftAnswer left = leftValue at answered
      generalize rightAnswer right = rightValue at answered
      cases answered with
      | none => exact induction
      | some related => exact .some related

/-- The first answer is the first acceptable one, if it is acceptable as soon as
any answer is. -/
theorem findSome?_filter {answer : α → Option β} {accepts : β → Bool} {elements : List α}
    (closed : ∀ first, elements.findSome? answer = some first →
      ∀ element ∈ elements, ∀ value, answer element = some value → accepts value → accepts first) :
    (elements.findSome? answer).filter accepts =
      elements.findSome? fun element => (answer element).filter accepts := by
  cases found : elements.findSome? answer with
  | none =>
      symm
      rw [Option.filter_none, List.findSome?_eq_none_iff]
      intro element member
      rw [List.findSome?_eq_none_iff.mp found element member]
      rfl
  | some first =>
      by_cases accepted : accepts first
      · rcases List.findSome?_eq_some_iff.mp found with
          ⟨before, element, after, rfl, answered, unanswered⟩
        symm
        rw [Option.filter_some_pos accepted, List.findSome?_eq_some_iff]
        refine ⟨before, element, after, rfl, ?_, ?_⟩
        · rw [answered, Option.filter_some_pos accepted]
        · intro earlier member
          rw [unanswered earlier member]
          rfl
      · symm
        rw [Option.filter_some_neg (by simpa using accepted), List.findSome?_eq_none_iff]
        intro element member
        rw [Option.filter_eq_none_iff]
        intro value answered acceptable
        exact accepted (closed first found element member value answered acceptable)

end Answers

/-! ## Corresponding hierarchies -/

namespace Program

variable {program left : Program}

theorem sameClass_biUnique (distinct : program.symbolNames.Nodup)
    (distinctLeft : left.symbolNames.Nodup) : Relator.BiUnique (program.SameClass left) := by
  constructor
  · intro position leftPosition other same otherSame
    rcases same with ⟨declaration, kept, declared, leftDeclared, sameName⟩
    rcases otherSame with ⟨otherDeclaration, otherKept, otherDeclared, otherLeft, otherName⟩
    obtain rfl : kept = otherKept := Option.some.inj (leftDeclared.symm.trans otherLeft)
    exact class_unique distinct declared otherDeclared (sameName.symm.trans otherName)
  · intro position leftPosition other same otherSame
    rcases same with ⟨declaration, kept, declared, leftDeclared, sameName⟩
    rcases otherSame with ⟨otherDeclaration, otherKept, otherDeclared, otherLeft, otherName⟩
    obtain rfl : declaration = otherDeclaration :=
      Option.some.inj (declared.symm.trans otherDeclared)
    exact class_unique distinctLeft leftDeclared otherLeft (sameName.trans otherName.symm)

theorem SameClass.positions_together {position leftPosition : Nat}
    (same : program.SameClass left position leftPosition) :
    position ∈ program.positions ↔ leftPosition ∈ left.positions := by
  rcases same with ⟨declaration, kept, declared, leftDeclared, _⟩
  exact iff_of_true (mem_positions_of_declared declared) (mem_positions_of_declared leftDeclared)

def SameName (program left : Program) (name leftName : String) : Prop :=
  name = leftName ∧
    Option.Rel (program.SameClass left) (program.position? name) (left.position? leftName)

end Program

/-- Classes of two programs that have one name have the same parents, too. -/
structure SameHierarchy (program left : Program) : Prop where
  unique : Relator.BiUnique (program.SameClass left)
  superclassName : ∀ {position leftPosition : Nat},
    program.SameClass left position leftPosition →
      List.Forall₂ (program.SameName left) (program.superclassName? position).toList
        (left.superclassName? leftPosition).toList
  interfaceNames : ∀ {position leftPosition : Nat},
    program.SameClass left position leftPosition →
      List.Forall₂ (program.SameName left) (program.interfaceNames position)
        (left.interfaceNames leftPosition)

namespace SameHierarchy

variable {program left : Program} (corresponds : SameHierarchy program left)
  {position leftPosition : Nat}

include corresponds

theorem superclasses (same : program.SameClass left position leftPosition) :
    List.Forall₂ (program.SameClass left) (program.superclasses position)
      (left.superclasses leftPosition) :=
  List.rel_filterMap (fun _ _ sameName => sameName.2) (corresponds.superclassName same)

theorem interfaces (same : program.SameClass left position leftPosition) :
    List.Forall₂ (program.SameClass left) (program.interfaces position)
      (left.interfaces leftPosition) :=
  List.rel_filterMap (fun _ _ sameName => sameName.2) (corresponds.interfaceNames same)

theorem chain (same : program.SameClass left position leftPosition) :
    List.Forall₂ (program.SameClass left) (program.chain position) (left.chain leftPosition) :=
  Worklist.explore_related corresponds.unique (fun _ _ => corresponds.superclasses)
    Program.positions_nodup Program.positions_nodup (fun _ _ same => same.positions_together)
    (.cons same .nil)

theorem interfaceWalk {chain leftChain : List Nat}
    (related : List.Forall₂ (program.SameClass left) chain leftChain) :
    List.Forall₂ (program.SameClass left) (program.interfaceWalk chain)
      (left.interfaceWalk leftChain) :=
  Worklist.explore_related corresponds.unique (fun _ _ => corresponds.interfaces)
    Program.positions_nodup Program.positions_nodup (fun _ _ same => same.positions_together)
    (List.rel_flatMap related fun _ _ => corresponds.interfaces)

theorem lookupPath (same : program.SameClass left position leftPosition) :
    List.Forall₂ (program.SameClass left) (program.lookupPath position)
      (left.lookupPath leftPosition) :=
  List.rel_append (corresponds.chain same) (corresponds.interfaceWalk (corresponds.chain same))

theorem leavesProgram_eq {chain leftChain walk leftWalk : List Nat}
    (chains : List.Forall₂ (program.SameClass left) chain leftChain)
    (walks : List.Forall₂ (program.SameClass left) walk leftWalk) :
    program.leavesProgram chain walk = left.leavesProgram leftChain leftWalk := by
  have names := List.rel_append
    (List.rel_flatMap chains fun _ _ => corresponds.superclassName)
    (List.rel_flatMap (List.rel_append chains walks) fun _ _ => corresponds.interfaceNames)
  have undefined := List.rel_filter (fun _ _ same => isNone_iff_of_optionRel same.2) names
  have sameNames := undefined.imp fun _ _ same => same.1
  rw [List.forall₂_eq_eq_eq] at sameNames
  rw [Program.leavesProgram, Program.leavesProgram, Program.undefinedNames, Program.undefinedNames,
    sameNames]

end SameHierarchy

/-! ## Lookups -/

/-- Answers to two lookups that differ at most in where the declaration is. -/
inductive Lookup.Same (relation : MemberPosition → MemberPosition → Prop) :
    Lookup → Lookup → Prop
  | found {declaration kept : MemberPosition} :
      relation declaration kept → Same relation (.found declaration) (.found kept)
  | maybeInherited : Same relation .maybeInherited .maybeInherited
  | missing : Same relation .missing .missing

theorem SameHierarchy.lookup {program left : Program} (corresponds : SameHierarchy program left)
    {relation : MemberPosition → MemberPosition → Prop} {position leftPosition : Nat}
    {signature : Signature} (same : program.SameClass left position leftPosition)
    (first : Option.Rel relation
      ((program.lookupPath position).findSome? (program.declared? signature))
      ((left.lookupPath leftPosition).findSome? (left.declared? signature))) :
    Lookup.Same relation (program.lookup position signature)
      (left.lookup leftPosition signature) := by
  have leaves := corresponds.leavesProgram_eq (corresponds.chain same)
    (corresponds.interfaceWalk (corresponds.chain same))
  rw [Program.lookup_eq, Program.lookup_eq, leaves]
  generalize (program.lookupPath position).findSome? (program.declared? signature) = declaration
    at first ⊢
  generalize (left.lookupPath leftPosition).findSome? (left.declared? signature) = kept
    at first ⊢
  cases first with
  | some related => exact .found related
  | none =>
      dsimp only
      split
      · exact .maybeInherited
      · exact .missing

/-! ## What is left -/

namespace Cut

variable {program left : Program} {reached : List Nat} (cut : Cut program left reached)
  {position leftPosition : Nat} {signature : Signature}

include cut

theorem position?_related {name : String}
    (retained : ∀ position, program.position? name = some position →
      program.classNode position ∈ reached) :
    Option.Rel (program.SameClass left) (program.position? name) (left.position? name) := by
  apply optionRel_of_forward
  · intro position found
    rcases (Program.position?_eq_some_iff cut.distinct name).mp found with
      ⟨declaration, declared, rfl⟩
    rcases cut.class_left declared (retained position found) with ⟨leftPosition, leftDeclared⟩
    exact ⟨leftPosition,
      (Program.position?_eq_some_iff cut.distinct_left _).mpr ⟨_, leftDeclared, rfl⟩,
      declaration, _, declared, leftDeclared, rfl⟩
  · intro absent
    rw [Program.position?_eq_none_iff] at absent ⊢
    intro kept keptLeft
    rcases List.mem_iff_getElem?.mp keptLeft with ⟨leftPosition, leftDeclared⟩
    rcases cut.class_original leftDeclared with ⟨position, declaration, declared, _, rfl⟩
    exact absent declaration (List.mem_of_getElem? declared)

theorem sameName_of_parent {declaration : ClassDecl}
    (declared : program.classes[position]? = some declaration)
    (retained : program.classNode position ∈ reached) {name : String}
    (parent : declaration.superclass = some name ∨ name ∈ declaration.interfaces) :
    program.SameName left name name := by
  refine ⟨rfl, cut.position?_related ?_⟩
  intro upper found
  have target := cut.parentTarget_of_class declared retained parent
  rwa [Program.classTarget_eq_node found, ProgramGraph.nodeAt_node] at target

theorem sameHierarchy : SameHierarchy program left where
  unique := Program.sameClass_biUnique cut.distinct cut.distinct_left
  superclassName same := by
    rcases cut.sameClass_iff.mp same with ⟨declaration, declared, retained, leftDeclared⟩
    rw [Program.superclassName?_eq declared, Program.superclassName?_eq leftDeclared]
    refine List.forall₂_same.mpr ?_
    intro name named
    exact cut.sameName_of_parent declared retained (.inl (Option.mem_toList.mp named))
  interfaceNames same := by
    rcases cut.sameClass_iff.mp same with ⟨declaration, declared, retained, leftDeclared⟩
    rw [Program.interfaceNames_eq declared, Program.interfaceNames_eq leftDeclared]
    refine List.forall₂_same.mpr ?_
    intro name named
    exact cut.sameName_of_parent declared retained (.inr named)

/-! ## Declarations of what is left -/

omit cut in
def isReached (program : Program) (reached : List Nat) (place : MemberPosition) : Bool :=
  program.memberNode place ∈ reached

omit cut in
theorem isReached_iff {place : MemberPosition} :
    isReached program reached place ↔ program.memberNode place ∈ reached :=
  decide_eq_true_iff

/-- If the members of a class are selected by anything but their annotation tags,
then what is selected where the class is left is what was selected before, as
far as it is retained. -/
theorem selection_related {property : Member → Prop}
    (indifferent : ∀ member tags, property { member with annotations := tags } ↔ property member)
    (same : program.SameClass left position leftPosition)
    {selected leftSelected : Option MemberPosition}
    (selects : ∀ place, selected = some place ↔
      place.owner = position ∧ ∃ member, program.memberAt? place = some member ∧ property member)
    (leftSelects : ∀ place, leftSelected = some place ↔
      place.owner = leftPosition ∧ ∃ member, left.memberAt? place = some member ∧ property member) :
    Option.Rel (program.SameMember left)
      (selected.filter (isReached program reached)) leftSelected := by
  apply optionRel_of_forward
  · intro place found
    rcases Option.filter_eq_some_iff.mp found with ⟨isSelected, retained⟩
    rcases (selects place).mp isSelected with ⟨rfl, member, present, holds⟩
    rcases cut.member_left same present (isReached_iff.mp retained) with ⟨leftIndex, leftPresent⟩
    exact ⟨⟨leftPosition, leftIndex⟩,
      (leftSelects _).mpr ⟨rfl, _, leftPresent, (indifferent _ _).mpr holds⟩,
      same, member, _, present, leftPresent, rfl⟩
  · intro absent
    rw [Option.eq_none_iff_forall_ne_some]
    intro leftPlace isSelected
    rcases (leftSelects leftPlace).mp isSelected with ⟨rfl, kept, leftPresent, holds⟩
    rcases cut.member_original same leftPresent with ⟨index, member, present, retained, rfl⟩
    have found := (selects ⟨position, index⟩).mpr
      ⟨rfl, member, present, (indifferent _ _).mp holds⟩
    rw [found, Option.filter_some_pos (isReached_iff.mpr retained)] at absent
    cases absent

theorem declared?_related (same : program.SameClass left position leftPosition) :
    Option.Rel (program.SameMember left)
      ((program.declared? signature position).filter (isReached program reached))
      (left.declared? signature leftPosition) :=
  cut.selection_related (fun _ _ => Iff.rfl) same
    (fun _ => Program.declared?_eq_some_iff cut.distinct)
    (fun _ => Program.declared?_eq_some_iff cut.distinct_left)

theorem virtual?_related (same : program.SameClass left position leftPosition) :
    Option.Rel (program.SameMember left)
      ((program.virtual? signature position).filter (isReached program reached))
      (left.virtual? signature leftPosition) :=
  cut.selection_related (fun _ _ => Iff.rfl) same
    (fun _ => Program.virtual?_eq_some_iff cut.distinct)
    (fun _ => Program.virtual?_eq_some_iff cut.distinct_left)

end Cut

end ClassShrink
