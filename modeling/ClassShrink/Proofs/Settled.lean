import ClassShrink.Json.Value

/-! # Settled values

Settling a value gives a settled one that is nested no deeper and has no other
numbers in it, and a settled value is its own settled form. -/

namespace ClassShrink

/-! ## Answers for all elements of a list -/

section Lists

variable {α β : Type} {elements : List α}

theorem exists_source_of_mapM {answer : α → Option β} {results : List β}
    (answers : elements.mapM answer = some results) {result : β} (member : result ∈ results) :
    ∃ element ∈ elements, answer element = some result := by
  induction elements generalizing results with
  | nil =>
      cases answers
      cases member
  | cons element rest induction =>
      simp only [List.mapM_cons, Option.bind_eq_bind, Option.bind_eq_some_iff] at answers
      rcases answers with ⟨first, answersFirst, others, answersOthers, ⟨⟩⟩
      rcases List.mem_cons.mp member with isFirst | inOthers
      · exact ⟨element, List.mem_cons_self, isFirst ▸ answersFirst⟩
      · rcases induction answersOthers inOthers with ⟨source, inRest, answersSource⟩
        exact ⟨source, List.mem_cons_of_mem _ inRest, answersSource⟩

theorem mapM_eq_self_iff {answer : α → Option α} :
    elements.mapM answer = some elements ↔
      ∀ element ∈ elements, answer element = some element := by
  induction elements with
  | nil => simp
  | cons element rest induction =>
      simp only [List.mapM_cons, Option.bind_eq_bind, Option.pure_def, Option.bind_eq_some_iff,
        List.forall_mem_cons]
      constructor
      · rintro ⟨first, answersFirst, others, answersOthers, ⟨⟩⟩
        exact ⟨answersFirst, induction.mp answersOthers⟩
      · rintro ⟨answersFirst, answersOthers⟩
        exact ⟨element, answersFirst, rest, induction.mpr answersOthers, rfl⟩

end Lists

namespace Json

/-! ## Parts of values -/

/-- What holds of a container whenever it holds of its parts, holds of all values. -/
@[elab_as_elim] theorem partsInduction {motive : Json → Prop}
    (null : motive .null) (bool : ∀ value, motive (.bool value))
    (number : ∀ value, motive (.number value)) (string : ∀ value, motive (.string value))
    (array : ∀ items, (∀ item ∈ items, motive item) → motive (.array items))
    (object : ∀ fields, (∀ field ∈ fields, motive field.2) → motive (.object fields))
    (unusable : motive .unusable) : ∀ value, motive value
  | .null => null
  | .bool value => bool value
  | .number value => number value
  | .string value => string value
  | .array items => array items fun item _ =>
      partsInduction null bool number string array object unusable item
  | .object fields => object fields fun field _ =>
      partsInduction null bool number string array object unusable field.2
  | .unusable => unusable
termination_by value => sizeOf value
decreasing_by
  · have smaller := List.sizeOf_lt_of_mem ‹item ∈ items›
    simp only [Json.array.sizeOf_spec]
    omega
  · have smaller := List.sizeOf_lt_of_mem ‹field ∈ fields›
    rcases field with ⟨key, value⟩
    simp only [Json.object.sizeOf_spec, Prod.mk.sizeOf_spec] at smaller ⊢
    omega

inductive PartOf : Json → Json → Prop
  | self (value : Json) : PartOf value value
  | item {part item : Json} {items : List Json} :
      item ∈ items → PartOf part item → PartOf part (.array items)
  | field {part : Json} {field : String × Json} {fields : List (String × Json)} :
      field ∈ fields → PartOf part field.2 → PartOf part (.object fields)

theorem PartOf.trans {part middle value : Json} (first : PartOf part middle)
    (second : PartOf middle value) : PartOf part value := by
  induction second with
  | self => exact first
  | item member _ induction => exact .item member induction
  | field member _ induction => exact .field member induction

def Every (property : Json → Prop) (value : Json) : Prop :=
  ∀ part, PartOf part value → property part

section Every

variable {property : Json → Prop}

@[simp] theorem every_null : Every property .null ↔ property .null :=
  ⟨fun all => all _ (.self _), fun holds _ occurs => by cases occurs; exact holds⟩

@[simp] theorem every_bool (value : Bool) : Every property (.bool value) ↔ property (.bool value) :=
  ⟨fun all => all _ (.self _), fun holds _ occurs => by cases occurs; exact holds⟩

@[simp] theorem every_number (value : Number) :
    Every property (.number value) ↔ property (.number value) :=
  ⟨fun all => all _ (.self _), fun holds _ occurs => by cases occurs; exact holds⟩

@[simp] theorem every_string (value : String) :
    Every property (.string value) ↔ property (.string value) :=
  ⟨fun all => all _ (.self _), fun holds _ occurs => by cases occurs; exact holds⟩

@[simp] theorem every_array (items : List Json) : Every property (.array items) ↔
    property (.array items) ∧ ∀ item ∈ items, Every property item := by
  constructor
  · intro all
    exact ⟨all _ (.self _), fun item member part occurs => all part (.item member occurs)⟩
  · intro holds part occurs
    cases occurs with
    | self => exact holds.1
    | item member occurs => exact holds.2 _ member part occurs

@[simp] theorem every_object (fields : List (String × Json)) : Every property (.object fields) ↔
    property (.object fields) ∧ ∀ field ∈ fields, Every property field.2 := by
  constructor
  · intro all
    exact ⟨all _ (.self _), fun field member part occurs => all part (.field member occurs)⟩
  · intro holds part occurs
    cases occurs with
    | self => exact holds.1
    | field member occurs => exact holds.2 _ member part occurs

@[simp] theorem every_unusable : Every property .unusable ↔ property .unusable :=
  ⟨fun all => all _ (.self _), fun holds _ occurs => by cases occurs; exact holds⟩

end Every

/-! ## Properties of all parts -/

theorem depthOfItems_le_iff {items : List Json} {bound : Nat} :
    depthOfItems items ≤ bound ↔ ∀ item ∈ items, item.depth ≤ bound := by
  induction items with
  | nil => simp [depthOfItems]
  | cons item rest induction =>
      rw [depthOfItems, Nat.max_le, induction, List.forall_mem_cons]

theorem depthOfFields_le_iff {fields : List (String × Json)} {bound : Nat} :
    depthOfFields fields ≤ bound ↔ ∀ field ∈ fields, field.2.depth ≤ bound := by
  induction fields with
  | nil => simp [depthOfFields]
  | cons field rest induction =>
      rw [depthOfFields, Nat.max_le, induction, List.forall_mem_cons]

theorem settledItems_iff {items : List Json} :
    SettledItems items ↔ ∀ item ∈ items, item.Settled := by
  induction items with
  | nil => simp [SettledItems]
  | cons item rest induction => simp [SettledItems, induction]

theorem settledFields_iff {fields : List (String × Json)} :
    SettledFields fields ↔ ∀ field ∈ fields, field.2.Settled := by
  induction fields with
  | nil => simp [SettledFields]
  | cons field rest induction => rw [SettledFields, induction, List.forall_mem_cons]

theorem Settled.part {part value : Json} (settled : value.Settled) (occurs : PartOf part value) :
    part.Settled := by
  induction occurs with
  | self => exact settled
  | item member _ induction => exact induction (settledItems_iff.mp settled _ member)
  | field member _ induction => exact induction (settledFields_iff.mp settled.2 _ member)

/-! ## Ascending fields -/

def KeysAscend (fields : List (String × Json)) : Prop :=
  fields.Pairwise fun left right => left.1 < right.1

theorem setField_of_last {key : String} {value : Json} {fields : List (String × Json)}
    (last : ∀ field ∈ fields, field.1 < key) :
    setField key value fields = fields ++ [(key, value)] := by
  induction fields with
  | nil => rfl
  | cons field rest induction =>
      have before := last field List.mem_cons_self
      have different : key ≠ field.1 := fun same => String.lt_irrefl key (same ▸ before)
      rw [setField, if_neg (String.lt_asymm before), if_neg different,
        induction fun other member => last other (List.mem_cons_of_mem _ member)]
      rfl

theorem mem_of_mem_setField {key : String} {value : Json} {fields : List (String × Json)}
    {field : String × Json} (member : field ∈ setField key value fields) :
    field = (key, value) ∨ field ∈ fields := by
  induction fields with
  | nil => exact .inl (List.mem_singleton.mp member)
  | cons head rest induction =>
      rw [setField] at member
      split at member
      · exact List.mem_cons.mp member
      · split at member
        · rcases List.mem_cons.mp member with isNew | inRest
          · exact .inl isNew
          · exact .inr (List.mem_cons_of_mem _ inRest)
        · rcases List.mem_cons.mp member with isHead | inRest
          · exact .inr (isHead ▸ List.mem_cons_self)
          · exact (induction inRest).imp_right (List.mem_cons_of_mem _)

theorem setField_keysAscend {key : String} {value : Json} {fields : List (String × Json)}
    (ascend : KeysAscend fields) : KeysAscend (setField key value fields) := by
  induction fields with
  | nil => exact List.pairwise_singleton _ _
  | cons head rest induction =>
      rcases List.pairwise_cons.mp ascend with ⟨headFirst, restAscends⟩
      rw [setField]
      split
      case isTrue first =>
        refine List.pairwise_cons.mpr ⟨?_, ascend⟩
        intro later member
        rcases List.mem_cons.mp member with isHead | inRest
        · rw [isHead]
          exact first
        · exact String.lt_trans first (headFirst later inRest)
      case isFalse notFirst =>
        split
        case isTrue same =>
          subst same
          exact List.pairwise_cons.mpr ⟨headFirst, restAscends⟩
        case isFalse different =>
          refine List.pairwise_cons.mpr ⟨?_, induction restAscends⟩
          intro later member
          rcases mem_of_mem_setField member with isNew | inRest
          · rw [isNew]
            exact Std.lt_of_le_of_ne notFirst (Ne.symm different)
          · exact headFirst later inRest

/-! ## Settling -/

/-- What a value has in common with its settled form. -/
structure Settles (value result : Json) : Prop where
  settled : result.Settled
  depth_le : result.depth ≤ value.depth
  null_iff : result = .null ↔ value = .null
  numbers : ∀ number, PartOf (.number number) result → PartOf (.number number) value

theorem settles_self {value : Json} (settled : value.Settled) : Settles value value :=
  ⟨settled, Nat.le_refl _, Iff.rfl, fun _ => id⟩

theorem settleItems?_eq_mapM (items : List Json) : settleItems? items = items.mapM settle? := by
  induction items with
  | nil => rfl
  | cons item rest induction =>
      rw [settleItems?, induction, List.mapM_cons]
      rfl

theorem settleFields?_eq_some {fields before result : List (String × Json)}
    (answers : settleFields? before fields = some result) (ascend : KeysAscend before) :
    KeysAscend result ∧ ∀ field ∈ result,
      field ∈ before ∨ ∃ source ∈ fields, source.2.settle? = some field.2 := by
  induction fields generalizing before with
  | nil =>
      cases answers
      exact ⟨ascend, fun _ => .inl⟩
  | cons head rest induction =>
      simp only [settleFields?, Option.bind_eq_bind, Option.bind_eq_some_iff] at answers
      rcases answers with ⟨value, settles, answers⟩
      rcases induction answers (setField_keysAscend ascend) with ⟨resultAscends, sources⟩
      refine ⟨resultAscends, ?_⟩
      intro field member
      rcases sources field member with inBefore | ⟨source, inRest, settlesSource⟩
      · rcases mem_of_mem_setField inBefore with isNew | isOld
        · exact .inr ⟨head, List.mem_cons_self, isNew ▸ settles⟩
        · exact .inl isOld
      · exact .inr ⟨source, List.mem_cons_of_mem _ inRest, settlesSource⟩

theorem settles_of_settle? {value result : Json} (answers : value.settle? = some result) :
    Settles value result := by
  induction value using partsInduction generalizing result with
  | null | bool | number | string =>
      cases answers
      exact settles_self trivial
  | unusable => cases answers
  | array items induction =>
      rw [settle?] at answers
      rcases Option.map_eq_some_iff.mp answers with ⟨settled, settleItems, rfl⟩
      have sources (item : Json) (member : item ∈ settled) :
          ∃ source ∈ items, Settles source item := by
        rw [settleItems?_eq_mapM] at settleItems
        rcases exists_source_of_mapM settleItems member with ⟨source, inItems, settles⟩
        exact ⟨source, inItems, induction source inItems settles⟩
      constructor
      · apply settledItems_iff.mpr
        intro item member
        rcases sources item member with ⟨_, _, settles⟩
        exact settles.settled
      · apply Nat.succ_le_succ
        apply depthOfItems_le_iff.mpr
        intro item member
        rcases sources item member with ⟨source, inItems, settles⟩
        exact Nat.le_trans settles.depth_le (depthOfItems_le_iff.mp (Nat.le_refl _) source inItems)
      · simp
      · intro number occurs
        cases occurs with
        | item member occurs =>
            rcases sources _ member with ⟨source, inItems, settles⟩
            exact .item inItems (settles.numbers number occurs)
  | object fields induction =>
      rw [settle?] at answers
      rcases Option.map_eq_some_iff.mp answers with ⟨settled, settleFields, rfl⟩
      rcases settleFields?_eq_some settleFields .nil with ⟨ascend, sources⟩
      have sources (field : String × Json) (member : field ∈ settled) :
          ∃ source ∈ fields, Settles source.2 field.2 := by
        rcases sources field member with inNone | ⟨source, inFields, settles⟩
        · cases inNone
        · exact ⟨source, inFields, induction source inFields settles⟩
      constructor
      · refine ⟨ascend, settledFields_iff.mpr ?_⟩
        intro field member
        rcases sources field member with ⟨_, _, settles⟩
        exact settles.settled
      · apply Nat.succ_le_succ
        apply depthOfFields_le_iff.mpr
        intro field member
        rcases sources field member with ⟨source, inFields, settles⟩
        exact Nat.le_trans settles.depth_le
          (depthOfFields_le_iff.mp (Nat.le_refl _) source inFields)
      · simp
      · intro number occurs
        cases occurs with
        | field member occurs =>
            rcases sources _ member with ⟨source, inFields, settles⟩
            exact .field inFields (settles.numbers number occurs)

/-! ## Settled already -/

theorem settleFields?_of_settled {before fields : List (String × Json)}
    (ascend : KeysAscend (before ++ fields))
    (settled : ∀ field ∈ fields, field.2.settle? = some field.2) :
    settleFields? before fields = some (before ++ fields) := by
  induction fields generalizing before with
  | nil => simp [settleFields?]
  | cons head rest induction =>
      have last : ∀ field ∈ before, field.1 < head.1 := fun field member =>
        (List.pairwise_append.mp ascend).2.2 field member head List.mem_cons_self
      have shift : before ++ head :: rest = (before ++ [head]) ++ rest := by simp
      rw [shift] at ascend ⊢
      rw [settleFields?, settled head List.mem_cons_self]
      change settleFields? (setField head.1 head.2 before) rest = _
      rw [setField_of_last last]
      exact induction ascend fun field member => settled field (List.mem_cons_of_mem _ member)

theorem settle?_eq_self_iff {value : Json} : value.settle? = some value ↔ value.Settled := by
  refine ⟨fun answers => (settles_of_settle? answers).settled, fun settled => ?_⟩
  induction value using partsInduction with
  | null | bool | number | string => rfl
  | unusable => cases settled
  | array items induction =>
      have parts := settledItems_iff.mp settled
      rw [settle?, settleItems?_eq_mapM, mapM_eq_self_iff.mpr fun item member =>
        induction item member (parts item member)]
      rfl
  | object fields induction =>
      have parts := settledFields_iff.mp settled.2
      have ascend : KeysAscend ([] ++ fields) := settled.1
      rw [settle?, settleFields?_of_settled ascend fun field member =>
        induction field member (parts field member)]
      rfl

end Json

end ClassShrink
