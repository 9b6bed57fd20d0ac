import ClassShrink.Proofs.DocumentNumbers
import ClassShrink.Proofs.JsonText
import ClassShrink.Proofs.WrittenProgram

/-! # Programs read back

The text of a program is read as the program it was. The payloads decide: what
is read is always such that it can be written and read again, up to the doubles in
it, whose text is left to rounding. -/

namespace ClassShrink

def PayloadFits (outer : Nat) (payload : Option Json) : Prop :=
  ∀ value, payload = some value → value.Settled ∧ outer + value.depth ≤ nestingLimit

namespace Program

def HasPayload (program : Program) (value : Json) : Prop :=
  ∃ declaration ∈ program.classes, declaration.payload = some value ∨
    ∃ member ∈ declaration.members, member.payload = some value

/-- All payloads are settled and nested within the limit at the place where they
are written. -/
def PayloadsFit (program : Program) : Prop :=
  ∀ declaration ∈ program.classes, PayloadFits 3 declaration.payload ∧
    ∀ member ∈ declaration.members, PayloadFits 5 member.payload

def NumbersReadBack (program : Program) : Prop :=
  ∀ payload, program.HasPayload payload → ∀ number,
    Json.PartOf (.number number) payload → number.ReadsBack

def DoublesReadBack (program : Program) : Prop :=
  ∀ payload, program.HasPayload payload → ∀ double,
    Json.PartOf (.number (.double double)) payload → Json.Number.ReadsBack (.double double)

end Program

/-! ## Writable programs -/

namespace Json

theorem Settled.writable {value : Json} (settled : value.Settled)
    (readBack : ∀ number, PartOf (.number number) value → number.ReadsBack) :
    value.Every Writable := by
  intro part occurs
  have partSettled := settled.part occurs
  cases part with
  | number number => exact readBack number occurs
  | unusable => exact partSettled
  | _ => trivial

end Json

theorem writable_optionalField {key : String} {value? : Option Json}
    (writable : ∀ value, value? = some value → value.Every Json.Writable) :
    ∀ field ∈ optionalField key value?, field.2.Every Json.Writable := by
  cases value? with
  | none => exact nofun
  | some value => simpa [optionalField] using writable

theorem writable_nonemptyField {key : String} {items : List Json}
    (writable : ∀ item ∈ items, item.Every Json.Writable) :
    ∀ field ∈ nonemptyField key items, field.2.Every Json.Writable := by
  cases items with
  | nil => exact nofun
  | cons item rest => simpa [nonemptyField, Json.Writable] using writable

theorem writable_texts (texts : List String) :
    ∀ item ∈ texts.map Json.string, item.Every Json.Writable := by
  simp [Json.Writable]

theorem writable_text (text? : Option String) :
    ∀ value, text?.map Json.string = some value → value.Every Json.Writable := by
  simp [Json.Writable]

theorem Reference.writable (reference : Reference) : reference.toJson.Every Json.Writable := by
  refine (Json.every_object _).mpr ⟨trivial, ?_⟩
  simp only [List.forall_mem_append]
  refine ⟨⟨?_, writable_optionalField (writable_text _)⟩, writable_optionalField (writable_text _)⟩
  simp [Json.Writable]

theorem Member.writable {member : Member}
    (payload : ∀ value, member.payload = some value → value.Every Json.Writable) :
    member.toJson.Every Json.Writable := by
  refine (Json.every_object _).mpr ⟨trivial, ?_⟩
  simp only [List.forall_mem_append]
  refine ⟨⟨⟨?_, writable_nonemptyField (writable_texts _)⟩, writable_nonemptyField ?_⟩,
    writable_optionalField payload⟩
  · simp [Json.Writable]
  · exact List.forall_mem_map.mpr fun reference _ => reference.writable

theorem ClassDecl.writable {declaration : ClassDecl}
    (payload : ∀ value, declaration.payload = some value → value.Every Json.Writable)
    (members : ∀ member ∈ declaration.members, ∀ value, member.payload = some value →
      value.Every Json.Writable) :
    declaration.toJson.Every Json.Writable := by
  refine (Json.every_object _).mpr ⟨trivial, ?_⟩
  simp only [List.forall_mem_append]
  refine ⟨⟨⟨⟨⟨?_, writable_optionalField (writable_text _)⟩,
    writable_nonemptyField (writable_texts _)⟩, writable_nonemptyField (writable_texts _)⟩, ?_⟩,
    writable_optionalField payload⟩
  · simp [Json.Writable]
  · refine List.forall_mem_singleton.mpr ((Json.every_array _).mpr ⟨trivial, ?_⟩)
    exact List.forall_mem_map.mpr fun member isMember => Member.writable (members member isMember)

namespace Program

variable {program : Program}

theorem writable (payloads : ∀ payload, program.HasPayload payload → payload.Every Json.Writable) :
    program.toJson.Every Json.Writable := by
  refine (Json.every_object _).mpr ⟨trivial, List.forall_mem_singleton.mpr ?_⟩
  refine (Json.every_array _).mpr ⟨trivial, List.forall_mem_map.mpr ?_⟩
  intro declaration isClass
  refine ClassDecl.writable ?_ ?_
  · intro value isPayload
    exact payloads value ⟨declaration, isClass, .inl isPayload⟩
  · intro member isMember value isPayload
    exact payloads value ⟨declaration, isClass, .inr ⟨member, isMember, isPayload⟩⟩

/-! ## Reading again -/

theorem HasPayload.of_all {value : Json} (has : program.HasPayload value)
    (property : Nat → Option Json → Prop)
    (all : ∀ declaration ∈ program.classes, property 3 declaration.payload ∧
      ∀ member ∈ declaration.members, property 5 member.payload) :
    ∃ outer, property outer (some value) := by
  rcases has with ⟨declaration, isClass, isPayload | ⟨member, isMember, isPayload⟩⟩
  · exact ⟨3, isPayload ▸ (all declaration isClass).1⟩
  · exact ⟨5, isPayload ▸ (all declaration isClass).2 member isMember⟩

theorem readable_iff : program.Readable ↔ program.PayloadsFit ∧ ¬program.HasPayload .null := by
  constructor
  · intro readable
    constructor
    · intro declaration isClass
      have payloads := readable declaration isClass
      exact ⟨fun value isPayload => (payloads.1 value isPayload).2,
        fun member isMember value isPayload => (payloads.2 member isMember value isPayload).2⟩
    · intro hasNull
      rcases hasNull.of_all PayloadReadable readable with ⟨outer, isReadable⟩
      exact (isReadable .null rfl).1 rfl
  · intro holds
    rcases holds with ⟨fit, noNull⟩
    intro declaration isClass
    constructor
    · intro value isPayload
      refine ⟨?_, (fit declaration isClass).1 value isPayload⟩
      intro isNull
      exact noNull ⟨declaration, isClass, .inl (isNull ▸ isPayload)⟩
    · intro member isMember value isPayload
      refine ⟨?_, (fit declaration isClass).2 member isMember value isPayload⟩
      intro isNull
      exact noNull ⟨declaration, isClass, .inr ⟨member, isMember, isNull ▸ isPayload⟩⟩

theorem Readable.settled (readable : program.Readable) {payload : Json}
    (has : program.HasPayload payload) : payload.Settled := by
  rcases has.of_all PayloadReadable readable with ⟨outer, isReadable⟩
  exact (isReadable payload rfl).2.1

theorem Readable.parse?_pretty (readable : program.Readable)
    (readBack : program.NumbersReadBack) : parse? program.toJson.pretty = some program := by
  have isWritable : program.toJson.Every Json.Writable :=
    writable fun payload has => (readable.settled has).writable (readBack payload has)
  rw [parse?, Json.parse?_pretty isWritable]
  exact (ofJson?_toJson_eq_self_iff program).mpr readable

theorem readable_of_parse? {text : String} (parsed : parse? text = some program) :
    program.Readable := by
  rcases Option.bind_eq_some_iff.mp parsed with ⟨document, _, answers⟩
  exact readable_of_ofJson? answers

theorem numbersReadBack_of_parse? {text : String} (parsed : parse? text = some program)
    (doubles : program.DoublesReadBack) : program.NumbersReadBack := by
  rcases Option.bind_eq_some_iff.mp parsed with ⟨document, isDocument, answers⟩
  intro payload has number occurs
  cases number with
  | double value => exact doubles payload has value occurs
  | integer value =>
      -- The text that was read bounds the integers: they stem from its numerals.
      rcases has.of_all (fun outer => PayloadFrom outer document) (payloads_from answers) with
        ⟨outer, stems⟩
      have inDocument := stems.numbers occurs
      exact Json.Number.readsBack_integer (Json.numbersInRange_of_parse? isDocument _ inDocument)

/-- A program that was read is written so that it reads back as itself, and is
then written in the same way again. Of all programs, those read back whose
payloads fit and are not `null`. This holds of documents and of their texts, where
the doubles in the payloads have to read back by themselves. -/
theorem written_programs_read_back :
    (∀ document program, ofJson? document = some program →
      ofJson? program.toJson = some program ∧
        (ofJson? program.toJson).map toJson = some program.toJson) ∧
    (∀ program, ofJson? program.toJson = some program ↔
      program.PayloadsFit ∧ ¬program.HasPayload .null) ∧
    (∀ text program, parse? text = some program → program.DoublesReadBack →
      parse? program.toJson.pretty = some program ∧
        (parse? program.toJson.pretty).map (fun again => again.toJson.pretty) =
          some program.toJson.pretty) ∧
    (∀ program : Program, program.NumbersReadBack →
      (parse? program.toJson.pretty = some program ↔
        program.PayloadsFit ∧ ¬program.HasPayload .null)) := by
  refine ⟨?_, ?_, ?_, ?_⟩
  · intro document program answers
    have again := (ofJson?_toJson_eq_self_iff program).mpr (readable_of_ofJson? answers)
    rw [again]
    exact ⟨rfl, rfl⟩
  · intro program
    rw [ofJson?_toJson_eq_self_iff, readable_iff]
  · intro text program parsed doubles
    have again := (readable_of_parse? parsed).parse?_pretty
      (numbersReadBack_of_parse? parsed doubles)
    rw [again]
    exact ⟨rfl, rfl⟩
  · intro program readBack
    rw [← readable_iff]
    exact ⟨readable_of_parse?, fun readable => readable.parse?_pretty readBack⟩

end Program

namespace LooseDocument

/-! A document with a class as an object, a member as an array of its fields, a
field that is not known, an absent payload and a payload that is not settled. -/

def text : String :=
  "[[\x7b\"name\":\"A\",\"z\":0,\"members\":[[\"field\",\"x\",\"I\",\"package-private\",false," ++
    "[],[],\x7b\"b\":1,\"a\":[-2],\"b\":3\x7d]],\"payload\":null\x7d]]"

def payload : Json :=
  .object [("a", .array [.number (.integer (-2))]), ("b", .number (.integer 3))]

def member : Member :=
  { kind := .field, name := "x", descriptor := "I", visibility := .packageAccess
    payload := some payload }

def program : Program :=
  { classes := [{ name := "A", members := [member] }] }

theorem doublesReadBack : program.DoublesReadBack := by
  have noDouble : payload.Every fun part => ∀ double, part ≠ .number (.double double) := by
    simp [payload]
  intro value has double occurs
  have isPayload : value = payload := by
    simpa [Program.HasPayload, program, member, eq_comm] using has
  subst isPayload
  exact absurd rfl (noDouble _ occurs double)

theorem reads_back :
    Program.parse? text = some program ∧ program.HasPayload payload ∧
      program.DoublesReadBack ∧ program.NumbersReadBack ∧
      Program.ofJson? program.toJson = some program ∧
      Program.parse? program.toJson.pretty = some program ∧ program.PayloadsFit := by
  have parsed : Program.parse? text = some program := by decide +kernel
  have numbers := Program.numbersReadBack_of_parse? parsed doublesReadBack
  rcases Option.bind_eq_some_iff.mp parsed with ⟨document, _, answers⟩
  rcases Program.written_programs_read_back with ⟨ofDocument, _, ofText, exactly⟩
  have again := (ofText text program parsed doublesReadBack).1
  exact ⟨parsed, ⟨_, .head _, .inr ⟨_, .head _, rfl⟩⟩, doublesReadBack, numbers,
    (ofDocument document program answers).1, again, ((exactly program numbers).mp again).1⟩

end LooseDocument

end ClassShrink
