import ClassShrink.Hierarchy.Lookup
import Mathlib.Data.List.Nodup

/-! # The numbering of symbols

The symbols of a program are numbered in order, each class followed by its
members. The number of a symbol is its place among the names of the program. Where
all names are distinct, a name determines its symbol, and a signature a member of
its class. -/

namespace ClassShrink

/-! ## Blocks of a list -/

section Blocks

variable {α β : Type} {size : α → Nat} {block : α → List β}

/-- The blocks before the one at a position take up the sum of their sizes. -/
theorem getElem?_flatMap_block (sized : ∀ element, (block element).length = size element)
    {elements : List α} {position : Nat} {element : α}
    (present : elements[position]? = some element) {offset : Nat} (within : offset < size element) :
    (elements.flatMap block)[((elements.take position).map size).foldr (· + ·) 0 + offset]? =
      (block element)[offset]? := by
  induction elements generalizing position with
  | nil => simp at present
  | cons head tail induction =>
      cases position with
      | zero =>
          obtain rfl : head = element := by simpa using present
          simp [List.getElem?_append, sized, within]
      | succ position =>
          have inTail : tail[position]? = some element := by simpa using present
          rw [List.flatMap_cons, List.take_succ_cons, List.map_cons, List.foldr_cons,
            List.getElem?_append_right (by rw [sized]; omega), sized, ← induction inTail]
          congr 1
          omega

theorem exists_block (sized : ∀ element, (block element).length = size element)
    {elements : List α} {place : Nat} (within : place < (elements.flatMap block).length) :
    ∃ position element offset, elements[position]? = some element ∧ offset < size element ∧
      place = ((elements.take position).map size).foldr (· + ·) 0 + offset := by
  induction elements generalizing place with
  | nil => simp at within
  | cons head tail induction =>
      by_cases inHead : place < size head
      · exact ⟨0, head, place, by simp, inHead, by simp⟩
      · have inTail : place - size head < (tail.flatMap block).length := by
          rw [List.flatMap_cons, List.length_append, sized] at within
          omega
        rcases induction inTail with ⟨position, element, offset, present, inBlock, placed⟩
        refine ⟨position + 1, element, offset, by simpa using present, inBlock, ?_⟩
        rw [List.take_succ_cons, List.map_cons, List.foldr_cons]
        omega

end Blocks

namespace Program

def classNode (program : Program) (position : Nat) : Nat :=
  ((program.classes.take position).map fun declaration => declaration.members.length + 1).foldr
    (· + ·) 0

def memberNode (program : Program) (member : MemberPosition) : Nat :=
  program.classNode member.owner + 1 + member.index

variable {program : Program} {position index : Nat} {declaration : ClassDecl} {member : Member}

/-! ## Names -/

theorem mem_symbolNames_iff {name : String} :
    name ∈ program.symbolNames ↔
      ∃ declaration ∈ program.classes, name = declaration.name ∨
        ∃ member ∈ declaration.members, name = member.qualifiedName declaration.name := by
  simp only [symbolNames, List.mem_flatMap, ClassDecl.symbolNames, List.mem_cons, List.mem_map,
    eq_comm]

theorem name_mem_symbolNames (isClass : declaration ∈ program.classes) :
    declaration.name ∈ program.symbolNames :=
  mem_symbolNames_iff.mpr ⟨declaration, isClass, .inl rfl⟩

theorem qualifiedName_mem_symbolNames (isClass : declaration ∈ program.classes)
    (isMember : member ∈ declaration.members) :
    member.qualifiedName declaration.name ∈ program.symbolNames :=
  mem_symbolNames_iff.mpr ⟨declaration, isClass, .inr ⟨member, isMember, rfl⟩⟩

theorem symbolNames_length_block (declaration : ClassDecl) :
    declaration.symbolNames.length = declaration.members.length + 1 := by
  simp [ClassDecl.symbolNames]

theorem symbolNames_length_eq (program : Program) :
    program.symbolNames.length = program.classes.length + program.members.length := by
  rw [symbolNames, members]
  induction program.classes with
  | nil => rfl
  | cons declaration rest induction =>
      simp only [List.flatMap_cons, List.length_append, List.length_cons, induction,
        symbolNames_length_block]
      omega

theorem symbolNames_classNode (declared : program.classes[position]? = some declaration) :
    program.symbolNames[program.classNode position]? = some declaration.name := by
  have block : program.symbolNames[program.classNode position + 0]? =
      declaration.symbolNames[0]? :=
    getElem?_flatMap_block symbolNames_length_block declared (Nat.succ_pos _)
  exact block

theorem memberNode_eq (position index : Nat) :
    program.memberNode ⟨position, index⟩ = program.classNode position + (index + 1) := by
  rw [memberNode, Nat.add_assoc, Nat.add_comm 1]

theorem classNode_ne_memberNode (position index : Nat) :
    program.classNode position ≠ program.memberNode ⟨position, index⟩ := by
  rw [memberNode_eq]
  omega

theorem index_eq_of_memberNode_eq {position index other : Nat}
    (same : program.memberNode ⟨position, index⟩ = program.memberNode ⟨position, other⟩) :
    index = other := by
  rw [memberNode_eq, memberNode_eq] at same
  omega

theorem symbolNames_memberNode (declared : program.classes[position]? = some declaration)
    (has : declaration.members[index]? = some member) :
    program.symbolNames[program.memberNode ⟨position, index⟩]? =
      some (member.qualifiedName declaration.name) := by
  have within : index + 1 < declaration.members.length + 1 := by
    have := (List.getElem?_eq_some_iff.mp has).1
    omega
  have block : program.symbolNames[program.classNode position + (index + 1)]? =
      declaration.symbolNames[index + 1]? :=
    getElem?_flatMap_block symbolNames_length_block declared within
  rw [memberNode_eq, block, ClassDecl.symbolNames, List.getElem?_cons_succ, List.getElem?_map,
    has]
  rfl

theorem classNode_lt (declared : program.classes[position]? = some declaration) :
    program.classNode position < program.symbolNames.length :=
  (List.getElem?_eq_some_iff.mp (symbolNames_classNode declared)).1

theorem memberNode_lt (declared : program.classes[position]? = some declaration)
    (has : declaration.members[index]? = some member) :
    program.memberNode ⟨position, index⟩ < program.symbolNames.length :=
  (List.getElem?_eq_some_iff.mp (symbolNames_memberNode declared has)).1

theorem exists_symbol {node : Nat} (within : node < program.symbolNames.length) :
    (∃ position declaration, program.classes[position]? = some declaration ∧
      node = program.classNode position) ∨
    ∃ position index declaration member, program.classes[position]? = some declaration ∧
      declaration.members[index]? = some member ∧
        node = program.memberNode ⟨position, index⟩ := by
  rcases exists_block symbolNames_length_block within with
    ⟨position, declaration, offset, declared, inBlock, rfl⟩
  cases offset with
  | zero => exact .inl ⟨position, declaration, declared, rfl⟩
  | succ index =>
      refine .inr ⟨position, index, declaration, declaration.members[index], declared,
        List.getElem?_eq_getElem _, ?_⟩
      rw [memberNode_eq, classNode]

end Program

/-! ## Blocks of a program -/

section Blocks

variable {β : Type} {block : ClassDecl × Nat → List β}
  (sized : ∀ entry, (block entry).length = entry.1.members.length + 1)

theorem sum_take_zipIdx (classes : List ClassDecl) (position : Nat) :
    ((classes.zipIdx.take position).map fun entry => entry.1.members.length + 1).foldr (· + ·) 0 =
      ((classes.take position).map fun declaration => declaration.members.length + 1).foldr
        (· + ·) 0 := by
  have firsts : (classes.zipIdx.take position).map Prod.fst = classes.take position := by
    rw [List.map_take, List.zipIdx_map_fst]
  rw [← firsts, List.map_map]
  rfl

include sized

theorem blocks_length (program : Program) :
    (program.classes.zipIdx.flatMap block).length = program.symbolNames.length := by
  have firsts : (program.classes.zipIdx.map fun entry => entry.1.members.length + 1) =
      program.classes.map fun declaration => declaration.members.length + 1 := by
    conv_rhs => rw [← List.zipIdx_map_fst 0 program.classes, List.map_map]
    rfl
  simp only [Program.symbolNames, List.length_flatMap, sized, Program.symbolNames_length_block,
    firsts]

theorem blocks_getElem? {program : Program} {position offset : Nat} {declaration : ClassDecl}
    {element : β} (declared : program.classes[position]? = some declaration)
    (present : (block (declaration, position))[offset]? = some element) :
    (program.classes.zipIdx.flatMap block)[program.classNode position + offset]? =
      some element := by
  have within : offset < declaration.members.length + 1 := by
    have := (List.getElem?_eq_some_iff.mp present).1
    rwa [sized] at this
  have placed : program.classes.zipIdx[position]? = some (declaration, position) := by
    simp [declared]
  rw [← present, ← getElem?_flatMap_block sized placed within, sum_take_zipIdx]
  rfl

end Blocks

namespace Program

variable {program : Program} {position : Nat} {declaration : ClassDecl}

theorem eq_of_classNode_eq {other : Nat} {otherDeclaration : ClassDecl}
    (declared : program.classes[position]? = some declaration)
    (otherDeclared : program.classes[other]? = some otherDeclaration)
    (equal : program.classNode position = program.classNode other) : position = other := by
  -- With each symbol goes the position of its class.
  let block (entry : ClassDecl × Nat) := List.replicate (entry.1.members.length + 1) entry.2
  have sized (entry : ClassDecl × Nat) : (block entry).length = entry.1.members.length + 1 :=
    List.length_replicate
  have here : (program.classes.zipIdx.flatMap block)[program.classNode position + 0]? =
      some position := blocks_getElem? sized declared (by simp [block])
  have there : (program.classes.zipIdx.flatMap block)[program.classNode other + 0]? =
      some other := blocks_getElem? sized otherDeclared (by simp [block])
  rw [equal, there, Option.some.injEq] at here
  exact here.symm

/-! ## Distinct names -/

theorem index_unique {α : Type} {elements : List α} (distinct : elements.Nodup) {left right : Nat}
    {element : α} (leftPlaced : elements[left]? = some element)
    (rightPlaced : elements[right]? = some element) : left = right :=
  (List.getElem?_inj (List.getElem?_eq_some_iff.mp leftPlaced).1 distinct).mp
    (leftPlaced.trans rightPlaced.symm)

theorem place_unique {α β : Type} {elements : List α} {read : α → β}
    (distinct : (elements.map read).Nodup) {left right : Nat} {leftElement rightElement : α}
    (leftPlaced : elements[left]? = some leftElement)
    (rightPlaced : elements[right]? = some rightElement)
    (same : read leftElement = read rightElement) : left = right := by
  have leftRead : (elements.map read)[left]? = some (read leftElement) := by
    simp [leftPlaced]
  have rightRead : (elements.map read)[right]? = some (read leftElement) := by
    simp [rightPlaced, same]
  exact index_unique distinct leftRead rightRead

theorem findIdx?_eq_some_iff_of_nodup {α β : Type} [DecidableEq β] {elements : List α}
    {read : α → β} (distinct : (elements.map read).Nodup) (value : β) {place : Nat} :
    (elements.findIdx? fun element => read element = value) = some place ↔
      ∃ element, elements[place]? = some element ∧ read element = value := by
  constructor
  · intro found
    rcases List.findIdx?_eq_some_iff_getElem.mp found with ⟨within, reads, _⟩
    exact ⟨elements[place], List.getElem?_eq_getElem within, of_decide_eq_true reads⟩
  · intro placed
    rcases placed with ⟨element, placed, reads⟩
    cases found : elements.findIdx? fun element => read element = value with
    | none =>
        have unread := List.findIdx?_eq_none_iff.mp found element (List.mem_of_getElem? placed)
        exact absurd reads (of_decide_eq_false unread)
    | some first =>
        rcases List.findIdx?_eq_some_iff_getElem.mp found with ⟨within, firstReads, _⟩
        have same := place_unique distinct (List.getElem?_eq_getElem within) placed
          ((of_decide_eq_true firstReads).trans reads.symm)
        rw [same]

theorem classNames_nodup (distinct : program.symbolNames.Nodup) :
    (program.classes.map ClassDecl.name).Nodup := by
  have disjoint := (List.nodup_flatMap.mp distinct).2
  rw [List.Nodup, List.pairwise_map]
  refine disjoint.imp ?_
  intro left right apart equal
  exact apart (List.mem_cons_self : left.name ∈ left.symbolNames)
    (equal ▸ List.mem_cons_self : left.name ∈ right.symbolNames)

theorem class_unique (distinct : program.symbolNames.Nodup) {left right : Nat}
    {leftDeclaration rightDeclaration : ClassDecl}
    (leftDeclared : program.classes[left]? = some leftDeclaration)
    (rightDeclared : program.classes[right]? = some rightDeclaration)
    (sameName : leftDeclaration.name = rightDeclaration.name) : left = right :=
  place_unique (classNames_nodup distinct) leftDeclared rightDeclared sameName

theorem signatures_nodup (distinct : program.symbolNames.Nodup)
    (declared : program.classes[position]? = some declaration) :
    (declaration.members.map Member.signature).Nodup := by
  have block := (List.nodup_flatMap.mp distinct).1 declaration (List.mem_of_getElem? declared)
  have names : ((declaration.members.map Member.signature).map
      (Signature.key · declaration.name)).Nodup := by
    rw [List.map_map]
    exact (List.nodup_cons.mp block).2
  exact names.of_map

theorem member_unique (distinct : program.symbolNames.Nodup)
    (declared : program.classes[position]? = some declaration) {left right : Nat}
    {leftMember rightMember : Member}
    (leftHas : declaration.members[left]? = some leftMember)
    (rightHas : declaration.members[right]? = some rightMember)
    (sameSignature : leftMember.signature = rightMember.signature) : left = right :=
  place_unique (signatures_nodup distinct declared) leftHas rightHas sameSignature

theorem position?_eq_some_iff (distinct : program.symbolNames.Nodup) (name : String) :
    program.position? name = some position ↔
      ∃ declaration, program.classes[position]? = some declaration ∧ declaration.name = name :=
  findIdx?_eq_some_iff_of_nodup (classNames_nodup distinct) name

theorem getElem?_of_position?_name (distinct : program.symbolNames.Nodup)
    (member : declaration ∈ program.classes)
    (found : program.position? declaration.name = some position) :
    program.classes[position]? = some declaration := by
  rcases List.mem_iff_getElem?.mp member with ⟨place, declared⟩
  have foundThere := (position?_eq_some_iff distinct declaration.name).mpr
    ⟨declaration, declared, rfl⟩
  rw [found] at foundThere
  cases foundThere
  exact declared

theorem position?_eq_none_iff (name : String) :
    program.position? name = none ↔ ∀ declaration ∈ program.classes, declaration.name ≠ name := by
  simp [position?]

end Program

end ClassShrink
