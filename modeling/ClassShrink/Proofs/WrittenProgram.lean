import ClassShrink.Program.Document
import ClassShrink.Proofs.Settled

/-! # Programs as they are written

A written program is read as the program it was, provided that each payload is a
value that reading would give: settled, not `null`, and nested within the limit.
All payloads of a program that was read are of that kind. -/

namespace ClassShrink

/-! ## Written fields -/

namespace Record

variable {α β : Type} {name : String} {fields : List (String × α)}

theorem select?_of_sublist {known : List String} (once : known.Nodup)
    (keys : (fields.map Prod.fst).Sublist known) : select? known fields = some fields := by
  have all : (fields.filter fun field => known.contains field.1) = fields := by
    apply List.filter_eq_self.mpr
    intro field member
    exact List.contains_iff_mem.mpr (keys.subset (List.mem_map_of_mem member))
  rw [select?, all]
  exact if_pos (once.sublist keys)

theorem required?_of_lookup {value : α} (read : α → Option β)
    (found : fields.lookup name = some value) : required? read name fields = read value := by
  rw [required?, found]
  rfl

theorem optional?_of_lookup {value : α} (read : α → Option β) (absent : β)
    (found : fields.lookup name = some value) : optional? read absent name fields = read value := by
  rw [optional?, found]

theorem optional?_of_absent (read : α → Option β) (absent : β)
    (found : fields.lookup name = none) : optional? read absent name fields = some absent := by
  rw [optional?, found]

end Record

@[simp] theorem lookup_optionalField (key name : String) (value? : Option Json) :
    (optionalField key value?).lookup name = if name = key then value? else none := by
  cases value? with
  | none => simp [optionalField]
  | some value =>
      by_cases same : name = key
      · simp [optionalField, same]
      · simp [optionalField, List.lookup_cons, same, beq_false_of_ne same]

@[simp] theorem lookup_nonemptyField (key name : String) (items : List Json) :
    (nonemptyField key items).lookup name =
      if name = key ∧ items ≠ [] then some (.array items) else none := by
  cases items with
  | nil => simp [nonemptyField]
  | cons item rest =>
      by_cases same : name = key
      · simp [nonemptyField, same]
      · simp [nonemptyField, List.lookup_cons, same, beq_false_of_ne same]

theorem keys_optionalField (key : String) (value? : Option Json) :
    ((optionalField key value?).map Prod.fst).Sublist [key] := by
  cases value? <;> simp [optionalField]

theorem keys_nonemptyField (key : String) (items : List Json) :
    ((nonemptyField key items).map Prod.fst).Sublist [key] := by
  cases items <;> simp [nonemptyField]

section Fields

variable {name : String} {fields : List (String × Json)}

theorem optional?_text {text? : Option String} (found : fields.lookup name = text?.map .string) :
    Record.optional? (Json.nullable? Json.text?) none name fields = some text? := by
  cases text? with
  | none => exact Record.optional?_of_absent _ _ found
  | some text => exact Record.optional?_of_lookup _ _ found

theorem list?_array {β : Type} {read : Json → Option β} {write : β → Json} {values : List β} :
    Json.dialect.list? read (.array (values.map write)) =
      values.mapM fun value => read (write value) := by
  change (values.map write).mapM read = _
  rw [List.mapM_map]
  rfl

theorem optional?_list {β : Type} (read : Json → Option β) (write : β → Json) (values : List β)
    (found : fields.lookup name =
      if values.map write ≠ [] then some (.array (values.map write)) else none) :
    Record.optional? (Json.dialect.list? read) [] name fields =
      values.mapM fun value => read (write value) := by
  cases values with
  | nil => exact Record.optional?_of_absent _ _ found
  | cons value rest =>
      rw [if_pos (by simp)] at found
      rw [Record.optional?_of_lookup _ _ found, list?_array]

theorem optional?_texts {texts : List String} (found : fields.lookup name =
      if texts.map Json.string ≠ [] then some (.array (texts.map .string)) else none) :
    Record.optional? Json.dialect.texts? [] name fields = some texts :=
  (optional?_list Json.text? Json.string texts found).trans
    (mapM_eq_self_iff.mpr fun _ _ => rfl)

end Fields

/-! ## References and choices -/

namespace Reference

theorem fields?_toJson (reference : Reference) :
    ∃ fields, reference.toJson.fields? fieldNames = some fields ∧
      fields.lookup "owner" = some (.string reference.owner) ∧
      fields.lookup "name" = reference.name.map .string ∧
      fields.lookup "descriptor" = reference.descriptor.map .string := by
  refine ⟨_, Record.select?_of_sublist (by decide) ?_, ?_, ?_, ?_⟩
  · simp only [List.map_append]
    exact ((List.Sublist.refl ["owner"]).append (keys_optionalField _ _)).append
      (keys_optionalField _ _)
  all_goals simp [List.lookup_append, List.lookup_cons]

theorem ofJson?_toJson (reference : Reference) : ofJson? reference.toJson = some reference := by
  rcases reference.fields?_toJson with ⟨fields, known, owner, name, descriptor⟩
  simp only [ofJson?, known, Option.bind_eq_bind, Option.bind_some,
    Record.required?_of_lookup _ owner, Json.text?, optional?_text name, optional?_text descriptor]

end Reference

theorem MemberKind.ofJson?_name (kind : MemberKind) :
    MemberKind.ofJson? (.string kind.name) = some kind := by
  cases kind <;> decide

theorem Visibility.ofJson?_name (visibility : Visibility) :
    Visibility.ofJson? (.string visibility.name) = some visibility := by
  cases visibility <;> decide

/-! ## Payloads -/

def payloadAgain? (outer : Nat) : Option Json → Option (Option Json)
  | none => some none
  | some value => payload? outer value

/-- A payload is a value that reading would give within `outer` containers. -/
def PayloadReadable (outer : Nat) (payload : Option Json) : Prop :=
  ∀ value, payload = some value →
    value ≠ .null ∧ value.Settled ∧ outer + value.depth ≤ nestingLimit

theorem optional?_payload {outer : Nat} {payload : Option Json} {fields : List (String × Json)}
    (found : fields.lookup "payload" = payload) :
    Record.optional? (payload? outer) none "payload" fields = payloadAgain? outer payload := by
  cases payload with
  | none => exact Record.optional?_of_absent _ _ found
  | some value => exact Record.optional?_of_lookup _ _ found

theorem payload?_of_ne_null {outer : Nat} {value : Json} (notNull : value ≠ .null) :
    payload? outer value =
      (if outer + value.depth ≤ nestingLimit then value.settle? else none).map some := by
  unfold payload?
  cases value with
  | null => exact absurd rfl notNull
  | _ => rfl

theorem payloadAgain?_eq_self_iff {outer : Nat} {payload : Option Json} :
    payloadAgain? outer payload = some payload ↔ PayloadReadable outer payload := by
  cases payload with
  | none => simp [payloadAgain?, PayloadReadable]
  | some value =>
      by_cases isNull : value = .null
      · subst isNull
        simp [payloadAgain?, payload?, Json.nullable?, PayloadReadable]
      · rw [payloadAgain?, payload?_of_ne_null isNull, Option.map_eq_some_iff]
        simp [PayloadReadable, isNull, Json.settle?_eq_self_iff, and_comm]

theorem payloadReadable_of_payload? {outer : Nat} {value : Json} {payload : Option Json}
    (answers : payload? outer value = some payload) : PayloadReadable outer payload := by
  by_cases isNull : value = .null
  · subst isNull
    cases answers
    intro result given
    cases given
  · rw [payload?_of_ne_null isNull, Option.map_eq_some_iff] at answers
    rcases answers with ⟨result, answers, rfl⟩
    split at answers
    case isTrue within =>
      have settles := Json.settles_of_settle? answers
      intro same given
      cases given
      refine ⟨fun resultNull => isNull (settles.null_iff.mp resultNull), settles.settled, ?_⟩
      exact Nat.le_trans (Nat.add_le_add_left settles.depth_le outer) within
    case isFalse => cases answers

/-! ## Members -/

namespace Member

theorem fields?_toJson (member : Member) :
    ∃ fields, member.toJson.fields? fieldNames = some fields ∧
      fields.lookup "kind" = some (.string member.kind.name) ∧
      fields.lookup "name" = some (.string member.name) ∧
      fields.lookup "descriptor" = some (.string member.descriptor) ∧
      fields.lookup "visibility" = some (.string member.visibility.name) ∧
      fields.lookup "static" = some (.bool member.isStatic) ∧
      (fields.lookup "annotations" = if member.annotations.map Json.string ≠ [] then
        some (.array (member.annotations.map .string)) else none) ∧
      (fields.lookup "references" = if member.references.map Reference.toJson ≠ [] then
        some (.array (member.references.map Reference.toJson)) else none) ∧
      fields.lookup "payload" = member.payload := by
  refine ⟨_, Record.select?_of_sublist (by decide) ?_, ?_⟩
  · simp only [List.map_append]
    exact (((List.Sublist.refl ["kind", "name", "descriptor", "visibility", "static"]).append
      (keys_nonemptyField _ _)).append (keys_nonemptyField _ _)).append (keys_optionalField _ _)
  · simp [List.lookup_append, List.lookup_cons]

theorem ofJson?_toJson (member : Member) :
    ofJson? member.toJson =
      (payloadAgain? 5 member.payload).map fun payload => { member with payload } := by
  rcases member.fields?_toJson with
    ⟨fields, known, kind, name, descriptor, visibility, isStatic, annotations, references, payload⟩
  have readReferences : Record.optional? (Json.dialect.list? Reference.ofJson?) [] "references"
      fields = some member.references :=
    (optional?_list Reference.ofJson? Reference.toJson member.references references).trans
      (mapM_eq_self_iff.mpr fun reference _ => reference.ofJson?_toJson)
  simp only [ofJson?, known, Option.bind_eq_bind, Option.bind_some,
    Record.required?_of_lookup _ kind, MemberKind.ofJson?_name,
    Record.required?_of_lookup _ name, Record.required?_of_lookup _ descriptor, Json.text?,
    Record.optional?_of_lookup _ _ visibility, Visibility.ofJson?_name,
    Record.optional?_of_lookup _ _ isStatic, Json.flag?, optional?_texts annotations,
    readReferences, optional?_payload payload]
  cases payloadAgain? 5 member.payload <;> rfl

theorem ofJson?_toJson_eq_self_iff (member : Member) :
    ofJson? member.toJson = some member ↔ PayloadReadable 5 member.payload := by
  rw [ofJson?_toJson, ← payloadAgain?_eq_self_iff, Option.map_eq_some_iff]
  constructor
  · rintro ⟨payload, answers, same⟩
    rw [answers, ← same]
  · intro answers
    exact ⟨_, answers, rfl⟩

end Member

/-! ## Classes and programs -/

namespace ClassDecl

theorem fields?_toJson (declaration : ClassDecl) :
    ∃ fields, declaration.toJson.fields? fieldNames = some fields ∧
      fields.lookup "name" = some (.string declaration.name) ∧
      fields.lookup "superclass" = declaration.superclass.map .string ∧
      (fields.lookup "interfaces" = if declaration.interfaces.map Json.string ≠ [] then
        some (.array (declaration.interfaces.map .string)) else none) ∧
      (fields.lookup "annotations" = if declaration.annotations.map Json.string ≠ [] then
        some (.array (declaration.annotations.map .string)) else none) ∧
      fields.lookup "members" = some (.array (declaration.members.map Member.toJson)) ∧
      fields.lookup "payload" = declaration.payload := by
  refine ⟨_, Record.select?_of_sublist (by decide) ?_, ?_⟩
  · simp only [List.map_append]
    exact (((((List.Sublist.refl ["name"]).append (keys_optionalField _ _)).append
      (keys_nonemptyField _ _)).append (keys_nonemptyField _ _)).append
      (List.Sublist.refl ["members"])).append (keys_optionalField _ _)
  · simp [List.lookup_append, List.lookup_cons]

theorem ofJson?_toJson (declaration : ClassDecl) :
    ofJson? declaration.toJson =
      (declaration.members.mapM fun member => Member.ofJson? member.toJson).bind fun members =>
        (payloadAgain? 3 declaration.payload).map fun payload =>
          { declaration with members, payload } := by
  rcases declaration.fields?_toJson with
    ⟨fields, known, name, superclass, interfaces, annotations, members, payload⟩
  simp only [ofJson?, known, Option.bind_eq_bind, Option.bind_some,
    Record.required?_of_lookup _ name, Json.text?, optional?_text superclass,
    optional?_texts interfaces, optional?_texts annotations,
    Record.optional?_of_lookup _ _ members, list?_array, optional?_payload payload]
  cases payloadAgain? 3 declaration.payload <;> rfl

theorem ofJson?_toJson_eq_self_iff (declaration : ClassDecl) :
    ofJson? declaration.toJson = some declaration ↔
      PayloadReadable 3 declaration.payload ∧
        ∀ member ∈ declaration.members, PayloadReadable 5 member.payload := by
  have readMembers : (∀ member ∈ declaration.members, PayloadReadable 5 member.payload) ↔
      (declaration.members.mapM fun member => Member.ofJson? member.toJson) =
        some declaration.members := by
    simp only [mapM_eq_self_iff, Member.ofJson?_toJson_eq_self_iff]
  rw [ofJson?_toJson, readMembers, ← payloadAgain?_eq_self_iff, Option.bind_eq_some_iff]
  constructor
  · intro answers
    rcases answers with ⟨members, membersRead, answers⟩
    rcases Option.map_eq_some_iff.mp answers with ⟨payload, payloadRead, same⟩
    have sameMembers : members = declaration.members := congrArg ClassDecl.members same
    have samePayload : payload = declaration.payload := congrArg ClassDecl.payload same
    rw [payloadRead, membersRead, samePayload, sameMembers]
    exact ⟨rfl, rfl⟩
  · intro answers
    exact ⟨_, answers.2, Option.map_eq_some_iff.mpr ⟨_, answers.1, rfl⟩⟩

end ClassDecl

namespace Program

def Readable (program : Program) : Prop :=
  ∀ declaration ∈ program.classes, PayloadReadable 3 declaration.payload ∧
    ∀ member ∈ declaration.members, PayloadReadable 5 member.payload

/-- A written program is read as the program it was if and only if its payloads
allow it. -/
theorem ofJson?_toJson_eq_self_iff (program : Program) :
    ofJson? program.toJson = some program ↔ program.Readable := by
  have known : program.toJson.fields? ["classes"] =
      some [("classes", .array (program.classes.map ClassDecl.toJson))] := by
    rw [toJson, Json.fields?]
    exact Record.select?_of_sublist (by decide) (by simp)
  have found : Record.optional? (Json.dialect.list? ClassDecl.ofJson?) [] "classes"
      [("classes", .array (program.classes.map ClassDecl.toJson))] =
      program.classes.mapM fun declaration => ClassDecl.ofJson? declaration.toJson := by
    rw [Record.optional?_of_lookup _ _ List.lookup_cons_self, list?_array]
  have readClasses : program.Readable ↔
      (program.classes.mapM fun declaration => ClassDecl.ofJson? declaration.toJson) =
        some program.classes := by
    simp only [mapM_eq_self_iff, ClassDecl.ofJson?_toJson_eq_self_iff, Readable]
  rw [readClasses]
  simp only [ofJson?, known, Option.bind_eq_bind, Option.bind_some, found,
    Option.bind_eq_some_iff]
  constructor
  · intro answers
    rcases answers with ⟨classes, classesRead, ⟨⟩⟩
    exact classesRead
  · intro answers
    exact ⟨_, answers, rfl⟩

end Program

/-! ## What reading takes from a document -/

theorem partOf_of_fields? {known : List String} {value : Json} {fields : List (String × Json)}
    (answers : value.fields? known = some fields) {field : String × Json}
    (member : field ∈ fields) : Json.PartOf field.2 value := by
  cases value with
  | object entries =>
      simp only [Json.fields?, Record.select?] at answers
      split at answers
      · cases answers
        exact .field (List.mem_filter.mp member).1 (.self _)
      · cases answers
  | array items =>
      simp only [Json.fields?] at answers
      split at answers
      · cases answers
        exact .item (List.of_mem_zip member).2 (.self _)
      · cases answers
  | _ => cases answers

theorem optional?_eq_some {β : Type} {read : Json → Option β} {absent result : β} {name : String}
    {fields : List (String × Json)}
    (answers : Record.optional? read absent name fields = some result) :
    result = absent ∨ ∃ field ∈ fields, read field.2 = some result := by
  cases found : fields.lookup name with
  | none =>
      rw [Record.optional?_of_absent _ _ found] at answers
      cases answers
      exact .inl rfl
  | some value =>
      rw [Record.optional?_of_lookup _ _ found] at answers
      rcases List.lookup_eq_some_iff.mp found with ⟨before, after, rfl, _⟩
      exact .inr ⟨(name, value), by simp, answers⟩

theorem list?_eq_some {β : Type} {read : Json → Option β} {value : Json} {results : List β}
    (answers : Json.dialect.list? read value = some results) {result : β}
    (member : result ∈ results) : ∃ item, Json.PartOf item value ∧ read item = some result := by
  rcases Option.bind_eq_some_iff.mp answers with ⟨items, isArray, reads⟩
  cases value with
  | array _ =>
      cases isArray
      rcases exists_source_of_mapM reads member with ⟨item, inItems, readItem⟩
      exact ⟨item, .item inItems (.self item), readItem⟩
  | _ => cases isArray

def PayloadFrom (outer : Nat) (document : Json) (payload : Option Json) : Prop :=
  payload = none ∨ ∃ source, Json.PartOf source document ∧ payload? outer source = some payload

theorem PayloadFrom.within {outer : Nat} {part document : Json} {payload : Option Json}
    (stems : PayloadFrom outer part payload) (occurs : Json.PartOf part document) :
    PayloadFrom outer document payload := by
  rcases stems with absent | ⟨source, inPart, answers⟩
  · exact .inl absent
  · exact .inr ⟨source, inPart.trans occurs, answers⟩

theorem PayloadFrom.readable {outer : Nat} {document : Json} {payload : Option Json}
    (stems : PayloadFrom outer document payload) : PayloadReadable outer payload := by
  rcases stems with rfl | ⟨source, _, answers⟩
  · intro value given
    cases given
  · exact payloadReadable_of_payload? answers

theorem PayloadFrom.numbers {outer : Nat} {document value : Json} {number : Json.Number}
    (stems : PayloadFrom outer document (some value))
    (occurs : Json.PartOf (.number number) value) : Json.PartOf (.number number) document := by
  rcases stems with absent | ⟨source, inDocument, answers⟩
  · cases absent
  · by_cases isNull : source = .null
    · subst isNull
      cases answers
    · rw [payload?_of_ne_null isNull, Option.map_eq_some_iff] at answers
      rcases answers with ⟨result, answers, ⟨⟩⟩
      split at answers
      · exact ((Json.settles_of_settle? answers).numbers number occurs).trans inDocument
      · cases answers

theorem optional?_payload_from {outer : Nat} {known : List String} {document : Json}
    {fields : List (String × Json)} {payload : Option Json}
    (isRecord : document.fields? known = some fields)
    (answers : Record.optional? (payload? outer) none "payload" fields = some payload) :
    PayloadFrom outer document payload := by
  rcases optional?_eq_some answers with absent | ⟨field, member, reads⟩
  · exact .inl absent
  · exact .inr ⟨field.2, partOf_of_fields? isRecord member, reads⟩

theorem Member.payload_from {document : Json} {member : Member}
    (answers : Member.ofJson? document = some member) : PayloadFrom 5 document member.payload := by
  simp only [ofJson?, Option.bind_eq_bind, Option.bind_eq_some_iff] at answers
  rcases answers with
    ⟨fields, isRecord, _, _, _, _, _, _, _, _, _, _, _, _, _, _, payload, reads, ⟨⟩⟩
  exact optional?_payload_from isRecord reads

theorem ClassDecl.payloads_from {document : Json} {declaration : ClassDecl}
    (answers : ClassDecl.ofJson? document = some declaration) :
    PayloadFrom 3 document declaration.payload ∧
      ∀ member ∈ declaration.members, PayloadFrom 5 document member.payload := by
  simp only [ofJson?, Option.bind_eq_bind, Option.bind_eq_some_iff] at answers
  rcases answers with
    ⟨fields, isRecord, _, _, _, _, _, _, _, _, members, readMembers, payload, reads, ⟨⟩⟩
  refine ⟨optional?_payload_from isRecord reads, ?_⟩
  intro member isMember
  rcases optional?_eq_some readMembers with rfl | ⟨field, inFields, readMembers⟩
  · cases isMember
  · rcases list?_eq_some readMembers isMember with ⟨item, inField, readMember⟩
    exact (Member.payload_from readMember).within
      (inField.trans (partOf_of_fields? isRecord inFields))

theorem Program.payloads_from {document : Json} {program : Program}
    (answers : Program.ofJson? document = some program) :
    ∀ declaration ∈ program.classes, PayloadFrom 3 document declaration.payload ∧
      ∀ member ∈ declaration.members, PayloadFrom 5 document member.payload := by
  simp only [ofJson?, Option.bind_eq_bind, Option.bind_eq_some_iff] at answers
  rcases answers with ⟨fields, isRecord, classes, readClasses, ⟨⟩⟩
  intro declaration isClass
  rcases optional?_eq_some readClasses with rfl | ⟨field, inFields, readClasses⟩
  · cases isClass
  · rcases list?_eq_some readClasses isClass with ⟨item, inField, readClass⟩
    have inDocument := inField.trans (partOf_of_fields? isRecord inFields)
    have stems := ClassDecl.payloads_from readClass
    exact ⟨stems.1.within inDocument, fun member isMember =>
      (stems.2 member isMember).within inDocument⟩

theorem Program.readable_of_ofJson? {document : Json} {program : Program}
    (answers : Program.ofJson? document = some program) : program.Readable := by
  intro declaration isClass
  have stems := Program.payloads_from answers declaration isClass
  exact ⟨stems.1.readable, fun member isMember => (stems.2 member isMember).readable⟩

end ClassShrink
