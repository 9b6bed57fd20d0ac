import ClassShrink.Json.Document
import ClassShrink.Proofs.JsonNumber
import ClassShrink.Proofs.Settled

/-! # Numbers of a document

Every number that occurs in a document is one that a numeral can denote: the
scanner takes numbers from words only, and the reader puts its values together
from what the scanner gives. -/

namespace ClassShrink.Json

theorem foldlM_keeps {α β : Type} {step : β → α → Option β} (keeps : β → Prop)
    {elements : List α} {start final : β}
    (stepKeeps : ∀ element ∈ elements, ∀ state next,
      keeps state → step state element = some next → keeps next)
    (initial : keeps start) (run : elements.foldlM step start = some final) : keeps final := by
  induction elements generalizing start with
  | nil =>
      cases run
      exact initial
  | cons element rest induction =>
      rw [List.forall_mem_cons] at stepKeeps
      rw [List.foldlM_cons] at run
      rcases Option.bind_eq_some_iff.mp run with ⟨next, stepped, run⟩
      exact induction stepKeeps.2 (stepKeeps.1 start next initial stepped) run

/-- Whether a value itself, apart from its parts, is no number out of range. -/
def NumberInRange : Json → Prop
  | .number value => value.InRange
  | _ => True

/-! ## Scanning -/

namespace Token

theorem numbersInRange_of_wordValue? {word : List Char} {value : Json}
    (denotes : wordValue? word = some value) : value.Every NumberInRange := by
  by_cases isNumber : ∃ number, value = .number number
  · rcases isNumber with ⟨number, rfl⟩
    exact (every_number number).mpr (inRange_of_wordValue? denotes)
  · unfold wordValue? at denotes
    split at denotes
    · cases denotes
      exact (every_bool true).mpr trivial
    split at denotes
    · cases denotes
      exact (every_bool false).mpr trivial
    split at denotes
    · cases denotes
      exact every_null.mpr trivial
    rcases Option.map_eq_some_iff.mp denotes with ⟨numeral, _, rfl⟩
    split at isNumber
    · exact absurd ⟨_, rfl⟩ isNumber
    · exact every_unusable.mpr trivial

def FromWords (tokens : List Token) : Prop :=
  ∀ value, .scalar value ∈ tokens → ∃ word, wordValue? word = some value

theorem FromWords.emit {scan : Scan} {token : Token} (words : FromWords scan.tokens)
    (isMark : ∀ value, token ≠ .scalar value) : FromWords (emit scan token).tokens := by
  intro value member
  rcases List.mem_cons.mp member with same | earlier
  · exact absurd same.symm (isMark value)
  · exact words value earlier

theorem FromWords.begin? {scan next : Scan} {character : Char} (words : FromWords scan.tokens)
    (stepped : begin? scan character = some next) : FromWords next.tokens := by
  unfold Token.begin? at stepped
  split at stepped
  case h_7 =>
    cases stepped
    exact words
  case h_8 =>
    split at stepped
    · cases stepped
      exact words
    · split at stepped
      · cases stepped
        exact words
      · cases stepped
  all_goals
    cases stepped
    exact words.emit nofun

theorem FromWords.finishWord? {scan next : Scan} {characters : List Char}
    (words : FromWords scan.tokens) (finished : finishWord? scan characters = some next) :
    FromWords next.tokens := by
  rcases Option.map_eq_some_iff.mp finished with ⟨value, denotes, rfl⟩
  intro other member
  rcases List.mem_cons.mp member with same | earlier
  · cases same
    exact ⟨_, denotes⟩
  · exact words other earlier

theorem FromWords.step? {scan next : Scan} {character : Char} (words : FromWords scan.tokens)
    (stepped : step? scan character = some next) : FromWords next.tokens := by
  unfold Token.step? at stepped
  split at stepped
  · exact words.begin? stepped
  · split at stepped
    · cases stepped
      exact words
    · rcases Option.bind_eq_some_iff.mp stepped with ⟨middle, finished, stepped⟩
      exact (words.finishWord? finished).begin? stepped
  · split at stepped
    · cases stepped
      exact words.emit nofun
    · split at stepped
      · cases stepped
        exact words
      · split at stepped
        · cases stepped
        · cases stepped
          exact words
  · split at stepped
    · cases stepped
      exact words
    · rcases Option.map_eq_some_iff.mp stepped with ⟨meant, _, rfl⟩
      exact words
  · rcases Option.bind_eq_some_iff.mp stepped with ⟨digit, _, stepped⟩
    split at stepped
    · cases stepped
      exact words
    · cases stepped
      exact words

theorem fromWords_of_scan? {text : String} {tokens : List Token}
    (scanned : scan? text = some tokens) : FromWords tokens := by
  rcases Option.bind_eq_some_iff.mp scanned with ⟨scan, run, ended⟩
  have words : FromWords scan.tokens := by
    refine foldlM_keeps (fun scan => FromWords scan.tokens) ?_ ?_ run
    · intro character _ state next words stepped
      exact words.step? stepped
    · intro value member
      cases member
  split at ended
  · cases ended
    intro value member
    exact words value (List.mem_reverse.mp member)
  · rcases Option.map_eq_some_iff.mp ended with ⟨final, finished, rfl⟩
    intro value member
    exact words.finishWord? finished value (List.mem_reverse.mp member)
  · cases ended

end Token

/-! ## Reading -/

namespace Document

def Frame.InRange : Frame → Prop
  | .array items => ∀ item ∈ items, item.Every NumberInRange
  | .object fields _ => ∀ field ∈ fields, field.2.Every NumberInRange
  | .field fields _ _ => ∀ field ∈ fields, field.2.Every NumberInRange

structure Reading.InRange (reading : Reading) : Prop where
  frames : ∀ frame ∈ reading.frames, frame.InRange
  result : ∀ value, reading.result = some value → value.Every NumberInRange

namespace Reading.InRange

variable {reading next : Reading} (inRange : reading.InRange)

include inRange

theorem place {value : Json} (numbers : value.Every NumberInRange)
    (placed : place reading value = some next) : next.InRange := by
  have inFrames := inRange.frames
  unfold Document.place at placed
  split at placed
  case h_1 =>
    cases placed
    refine ⟨nofun, ?_⟩
    intro same given
    cases given
    exact numbers
  case h_2 items rest shape =>
    cases placed
    rw [shape, List.forall_mem_cons] at inFrames
    refine ⟨List.forall_mem_cons.mpr ⟨?_, inFrames.2⟩, inRange.result⟩
    exact List.forall_mem_cons.mpr ⟨numbers, inFrames.1⟩
  case h_3 fields sound key rest shape =>
    cases placed
    rw [shape, List.forall_mem_cons] at inFrames
    refine ⟨List.forall_mem_cons.mpr ⟨?_, inFrames.2⟩, inRange.result⟩
    cases key with
    | none => exact inFrames.1
    | some key => exact List.forall_mem_cons.mpr ⟨numbers, inFrames.1⟩
  case h_4 => cases placed

theorem close {isArray : Bool} (closed : close reading isArray = some next) : next.InRange := by
  have inFrames := inRange.frames
  unfold Document.close at closed
  split at closed
  case h_1 items rest shape =>
    rw [shape, List.forall_mem_cons] at inFrames
    have outside : Reading.InRange { reading with frames := rest } :=
      ⟨inFrames.2, inRange.result⟩
    split at closed
    · refine outside.place ?_ closed
      exact (every_array _).mpr ⟨trivial, fun item member =>
        inFrames.1 item (List.mem_reverse.mp member)⟩
    · cases closed
  case h_2 fields sound rest shape =>
    rw [shape, List.forall_mem_cons] at inFrames
    have outside : Reading.InRange { reading with frames := rest } :=
      ⟨inFrames.2, inRange.result⟩
    split at closed
    · cases closed
    · refine outside.place ?_ closed
      split
      · exact (every_object _).mpr ⟨trivial, fun field member =>
          inFrames.1 field (List.mem_reverse.mp member)⟩
      · exact every_unusable.mpr trivial
  case h_3 => cases closed

theorem beginValue {token : Token}
    (numbers : ∀ value, token = .scalar value → value.Every NumberInRange)
    (begun : beginValue reading token = some next) : next.InRange := by
  unfold Document.beginValue at begun
  split at begun
  case h_1 value => exact inRange.place (numbers value rfl) begun
  case h_2 value => exact inRange.place ((every_string value).mpr trivial) begun
  case h_3 => exact inRange.place (every_unusable.mpr trivial) begun
  case h_4 =>
    cases begun
    exact ⟨List.forall_mem_cons.mpr ⟨nofun, inRange.frames⟩, inRange.result⟩
  case h_5 =>
    cases begun
    exact ⟨List.forall_mem_cons.mpr ⟨nofun, inRange.frames⟩, inRange.result⟩
  case h_6 => cases begun

theorem beginField {token : Token} (begun : beginField reading token = some next) :
    next.InRange := by
  have inFrames := inRange.frames
  unfold Document.beginField at begun
  split at begun
  · split at begun
    case h_1 fields sound rest shape =>
      cases begun
      rw [shape, List.forall_mem_cons] at inFrames
      exact ⟨List.forall_mem_cons.mpr inFrames, inRange.result⟩
    case h_2 => cases begun
  · cases begun

theorem step? {token : Token}
    (numbers : ∀ value, token = .scalar value → value.Every NumberInRange)
    (stepped : step? reading token = some next) : next.InRange := by
  unfold Document.step? at stepped
  split at stepped
  · exact inRange.beginValue numbers stepped
  · exact inRange.close stepped
  · exact inRange.beginValue numbers stepped
  · exact inRange.beginField stepped
  · exact inRange.close stepped
  · exact inRange.beginField stepped
  · cases stepped
    exact ⟨inRange.frames, inRange.result⟩
  · split at stepped
    · cases stepped
      exact ⟨inRange.frames, inRange.result⟩
    · cases stepped
      exact ⟨inRange.frames, inRange.result⟩
    · cases stepped
  · exact inRange.close stepped
  · exact inRange.close stepped
  · cases stepped

end Reading.InRange

end Document

theorem numbersInRange_of_parse? {text : String} {value : Json}
    (parsed : parse? text = some value) : value.Every NumberInRange := by
  rcases Option.bind_eq_some_iff.mp parsed with ⟨tokens, scanned, parsed⟩
  rcases Option.bind_eq_some_iff.mp parsed with ⟨reading, read, isResult⟩
  have words := Token.fromWords_of_scan? scanned
  have initial : Document.Reading.InRange {} := ⟨nofun, nofun⟩
  have inRange : reading.InRange := by
    refine foldlM_keeps Document.Reading.InRange ?_ initial read
    intro token member state next inRange stepped
    refine inRange.step? ?_ stepped
    intro value isScalar
    rcases words value (isScalar ▸ member) with ⟨word, denotes⟩
    exact Token.numbersInRange_of_wordValue? denotes
  exact inRange.result value isResult

end ClassShrink.Json
