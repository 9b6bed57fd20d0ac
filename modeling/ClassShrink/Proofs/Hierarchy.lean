import ClassShrink.Hierarchy.Parents
import ClassShrink.Override.Pairs
import ClassShrink.Proofs.Numbering
import ClassShrink.Proofs.Worklist

/-! # What the hierarchy walks find

The superclass chain of a class and the walk over its supertypes follow the
declared parents to the end: they find what chains of parents lead to. The same
is said with names, where a chain may end outside the program. -/

namespace ClassShrink.Program

variable {program : Program} {position : Nat} {declaration : ClassDecl}

/-! ## Parents -/

theorem mem_positions_of_declared (declared : program.classes[position]? = some declaration) :
    position ∈ program.positions :=
  List.mem_range.mpr (List.getElem?_eq_some_iff.mp declared).1

theorem positions_nodup : program.positions.Nodup :=
  List.nodup_range

theorem mem_positions_of_position? {name : String}
    (found : program.position? name = some position) :
    position ∈ program.positions := by
  rcases List.findIdx?_eq_some_iff_getElem.mp found with ⟨within, _, _⟩
  exact List.mem_range.mpr within

@[simp] theorem mem_defined_iff (names : List String) :
    position ∈ program.defined names ↔ ∃ name ∈ names, program.position? name = some position := by
  simp [defined]

theorem mem_positions_of_mem_defined {names : List String}
    (member : position ∈ program.defined names) : position ∈ program.positions := by
  rcases (mem_defined_iff names).mp member with ⟨_, _, found⟩
  exact mem_positions_of_position? found

theorem superclassName?_eq (declared : program.classes[position]? = some declaration) :
    program.superclassName? position = declaration.superclass := by
  rw [superclassName?, declared]
  rfl

theorem interfaceNames_eq (declared : program.classes[position]? = some declaration) :
    program.interfaceNames position = declaration.interfaces := by
  rw [interfaceNames, declared]
  rfl

theorem mem_parentNames_iff (declared : program.classes[position]? = some declaration)
    (name : String) :
    name ∈ program.parentNames position ↔
      declaration.superclass = some name ∨ name ∈ declaration.interfaces := by
  simp [parentNames, superclassName?_eq declared, interfaceNames_eq declared]

theorem superclasses_eq_toList (position : Nat) :
    program.superclasses position =
      ((program.superclassName? position).bind program.position?).toList := by
  rw [superclasses, defined]
  cases program.superclassName? position with
  | none => rfl
  | some name => cases found : program.position? name <;> simp [found]

theorem superclass_unique {upper otherUpper : Nat}
    (isUpper : upper ∈ program.superclasses position)
    (isOther : otherUpper ∈ program.superclasses position) : upper = otherUpper := by
  rw [superclasses_eq_toList, Option.mem_toList] at isUpper isOther
  exact Option.some.inj (isUpper.symm.trans isOther)

theorem superclasses_subset_parents (position : Nat) :
    program.superclasses position ⊆ program.parents position := by
  intro other member
  rcases (mem_defined_iff _).mp member with ⟨name, named, found⟩
  exact (mem_defined_iff _).mpr ⟨name, List.mem_append_left _ named, found⟩

theorem interfaces_subset_parents (position : Nat) :
    program.interfaces position ⊆ program.parents position := by
  intro other member
  rcases (mem_defined_iff _).mp member with ⟨name, named, found⟩
  exact (mem_defined_iff _).mpr ⟨name, List.mem_append_right _ named, found⟩

/-! ## Walks -/

def Inherits (program : Program) : Nat → Nat → Prop :=
  Relation.ReflTransGen fun lower upper => upper ∈ program.parents lower

theorem mem_chain_iff (inside : position ∈ program.positions) (other : Nat) :
    other ∈ program.chain position ↔
      Relation.ReflTransGen (fun lower upper => upper ∈ program.superclasses lower)
        position other := by
  rw [chain, Worklist.mem_explore_iff positions_nodup]
  exact Worklist.reaches_singleton_iff inside
    (fun _ _ member => mem_positions_of_mem_defined member) other

theorem chain_eq_cons (inside : position ∈ program.positions) :
    ∃ ancestors, program.chain position = position :: ancestors :=
  Worklist.explore_singleton inside

theorem mem_supertypes_iff (inside : position ∈ program.positions) (other : Nat) :
    other ∈ program.supertypes position ↔ other ≠ position ∧ program.Inherits position other := by
  have reached : Worklist.Reaches program.parents program.positions [position] other ↔
      program.Inherits position other :=
    Worklist.reaches_singleton_iff inside
      (fun _ _ member => mem_positions_of_mem_defined member) other
  rw [supertypes, List.mem_filter, Worklist.mem_explore_iff positions_nodup, reached,
    decide_eq_true_eq, and_comm]

theorem inherits_of_mem_chain (inside : position ∈ program.positions) {other : Nat}
    (member : other ∈ program.chain position) : program.Inherits position other :=
  Relation.ReflTransGen.mono (fun lower _ superclass =>
    superclasses_subset_parents lower superclass) _ _ ((mem_chain_iff inside other).mp member)

theorem Inherits.eq_or_mem_supertypes {other : Nat} (inherits : program.Inherits position other)
    (inside : position ∈ program.positions) :
    other = position ∨ other ∈ program.supertypes position := by
  by_cases equal : other = position
  · exact .inl equal
  · exact .inr ((mem_supertypes_iff inside other).mpr ⟨equal, inherits⟩)

/-! ## Names of supertypes -/

/-- A class of the program names another class as its superclass or as one of
its interfaces. -/
def HasParent (program : Program) (lower upper : String) : Prop :=
  ∃ declaration ∈ program.classes, declaration.name = lower ∧
    (declaration.superclass = some upper ∨ upper ∈ declaration.interfaces)

/-- What the names of parents lead to is a class that the walk finds, or a name
that a class of the walk has for an external parent. -/
theorem inherits_or_external (distinct : program.symbolNames.Nodup)
    (declared : program.classes[position]? = some declaration) {name : String}
    (below : Relation.ReflTransGen program.HasParent declaration.name name) :
    (∃ upper, program.Inherits position upper ∧ program.position? name = some upper) ∨
    (program.position? name = none ∧
      ∃ upper, program.Inherits position upper ∧ name ∈ program.parentNames upper) := by
  induction below with
  | refl =>
      exact .inl ⟨position, .refl, (position?_eq_some_iff distinct _).mpr
        ⟨declaration, declared, rfl⟩⟩
  | @tail middle name _ parent induction =>
      rcases parent with ⟨lower, lowerMember, rfl, parent⟩
      rcases induction with ⟨lowerPosition, inherits, found⟩ | ⟨absent, _⟩
      · have lowerDeclared := getElem?_of_position?_name distinct lowerMember found
        have named := (mem_parentNames_iff lowerDeclared name).mpr parent
        cases target : program.position? name with
        | none => exact .inr ⟨rfl, lowerPosition, inherits, named⟩
        | some upper =>
            exact .inl ⟨upper, inherits.tail ((mem_defined_iff _).mpr ⟨name, named, target⟩), rfl⟩
      · exact absurd rfl ((position?_eq_none_iff _).mp absent lower lowerMember)

theorem inherits_of_names (distinct : program.symbolNames.Nodup)
    (declared : program.classes[position]? = some declaration) {name : String} {upper : Nat}
    (below : Relation.ReflTransGen program.HasParent declaration.name name)
    (found : program.position? name = some upper) : program.Inherits position upper := by
  rcases inherits_or_external distinct declared below with ⟨other, inherits, same⟩ | ⟨absent, _⟩
  · obtain rfl : upper = other := Option.some.inj (found.symm.trans same)
    exact inherits
  · rw [found] at absent
    cases absent

theorem eq_or_mem_supertypeNames (distinct : program.symbolNames.Nodup)
    (declared : program.classes[position]? = some declaration) {name : String}
    (below : Relation.ReflTransGen program.HasParent declaration.name name) :
    name = declaration.name ∨ name ∈ program.supertypeNames position := by
  have inside := mem_positions_of_declared declared
  rcases inherits_or_external distinct declared below with
    ⟨upper, inherits, found⟩ | ⟨absent, upper, inherits, named⟩
  · rcases (position?_eq_some_iff distinct name).mp found with ⟨upperClass, upperDeclared, rfl⟩
    rcases inherits.eq_or_mem_supertypes inside with rfl | isSupertype
    · rw [declared] at upperDeclared
      cases upperDeclared
      exact .inl rfl
    · refine .inr (List.mem_append_left _ (List.mem_filterMap.mpr ⟨upper, isSupertype, ?_⟩))
      rw [upperDeclared]
      rfl
  · refine .inr (List.mem_append_right _ (List.mem_filter.mpr ⟨?_, by simp [absent]⟩))
    exact List.mem_flatMap.mpr
      ⟨upper, List.mem_cons.mpr (inherits.eq_or_mem_supertypes inside), named⟩

theorem hasParent_of_mem_parentNames (declared : program.classes[position]? = some declaration)
    {name : String} (named : name ∈ program.parentNames position) :
    program.HasParent declaration.name name :=
  ⟨declaration, List.mem_of_getElem? declared, rfl, (mem_parentNames_iff declared name).mp named⟩

theorem Inherits.names (distinct : program.symbolNames.Nodup) {upper : Nat}
    (inherits : program.Inherits position upper)
    (declared : program.classes[position]? = some declaration) :
    ∃ upperClass, program.classes[upper]? = some upperClass ∧
      Relation.ReflTransGen program.HasParent declaration.name upperClass.name := by
  induction inherits with
  | refl => exact ⟨declaration, declared, .refl⟩
  | tail _ parent induction =>
      rcases induction with ⟨lowerClass, lowerDeclared, below⟩
      rcases (mem_defined_iff _).mp parent with ⟨name, named, found⟩
      rcases (position?_eq_some_iff distinct name).mp found with ⟨upperClass, upperDeclared, rfl⟩
      exact ⟨upperClass, upperDeclared,
        below.tail (hasParent_of_mem_parentNames lowerDeclared named)⟩

theorem mem_supertypeNames_iff (distinct : program.symbolNames.Nodup)
    (declared : program.classes[position]? = some declaration) (name : String) :
    name ∈ program.supertypeNames position ↔
      name ≠ declaration.name ∧ Relation.ReflTransGen program.HasParent declaration.name name := by
  have inside := mem_positions_of_declared declared
  constructor
  · intro isSupertype
    rcases List.mem_append.mp isSupertype with internal | external
    · rcases List.mem_filterMap.mp internal with ⟨upper, isUpper, named⟩
      rcases Option.map_eq_some_iff.mp named with ⟨upperClass, upperDeclared, rfl⟩
      rcases (mem_supertypes_iff inside upper).mp isUpper with ⟨apart, inherits⟩
      rcases inherits.names distinct declared with ⟨same, sameDeclared, below⟩
      obtain rfl : upperClass = same := Option.some.inj (upperDeclared.symm.trans sameDeclared)
      exact ⟨fun sameName => apart (class_unique distinct upperDeclared declared sameName), below⟩
    · rcases List.mem_filter.mp external with ⟨named, undefined⟩
      have absent := (position?_eq_none_iff name).mp (Option.isNone_iff_eq_none.mp undefined)
      rcases List.mem_flatMap.mp named with ⟨upper, isUpper, named⟩
      have inherits : program.Inherits position upper := by
        rcases List.mem_cons.mp isUpper with rfl | isSupertype
        · exact .refl
        · exact ((mem_supertypes_iff inside upper).mp isSupertype).2
      rcases inherits.names distinct declared with ⟨upperClass, upperDeclared, below⟩
      refine ⟨fun sameName => absent declaration (List.mem_of_getElem? declared) sameName.symm, ?_⟩
      exact below.tail (hasParent_of_mem_parentNames upperDeclared named)
  · rintro ⟨apart, below⟩
    exact (eq_or_mem_supertypeNames distinct declared below).resolve_left apart

end ClassShrink.Program
