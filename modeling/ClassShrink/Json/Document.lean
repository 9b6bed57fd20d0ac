import ClassShrink.Json.Token

/-! # JSON documents

A document is one value and nothing else. The reader takes the tokens in turn
and holds the containers that are still open, innermost first, so that it needs
no recursion however deep the document is nested. -/

namespace ClassShrink.Json

namespace Document

/-- A container that is still open, its parts last first. A key that is not
sound spoils its object. -/
inductive Frame where
  | array (items : List Json)
  | object (fields : List (String × Json)) (sound : Bool)
  | field (fields : List (String × Json)) (sound : Bool) (key : Option String)

inductive Expectation where
  | value
  | valueOrEnd
  | key
  | keyOrEnd
  | colon
  | commaOrEnd
  | nothing

structure Reading where
  frames : List Frame := []
  expectation : Expectation := .value
  result : Option Json := none

def place (reading : Reading) (value : Json) : Option Reading :=
  match reading.frames with
  | [] => some { frames := [], expectation := .nothing, result := some value }
  | .array items :: rest =>
      some { reading with
        frames := .array (value :: items) :: rest
        expectation := .commaOrEnd }
  | .field fields sound key :: rest =>
      let (fields, sound) :=
        match key with
        | some key => ((key, value) :: fields, sound)
        | none => (fields, false)
      some { reading with
        frames := .object fields sound :: rest
        expectation := .commaOrEnd }
  | .object _ _ :: _ => none

def close (reading : Reading) (isArray : Bool) : Option Reading :=
  match reading.frames with
  | .array items :: rest =>
      if isArray then place { reading with frames := rest } (.array items.reverse) else none
  | .object fields sound :: rest =>
      if isArray then none
      else place { reading with frames := rest }
        (if sound then .object fields.reverse else .unusable)
  | _ => none

def beginValue (reading : Reading) : Token → Option Reading
  | .scalar value => place reading value
  | .text (some value) => place reading (.string value)
  | .text none => place reading .unusable
  | .beginArray =>
      some { reading with
        frames := .array [] :: reading.frames
        expectation := .valueOrEnd }
  | .beginObject =>
      some { reading with
        frames := .object [] true :: reading.frames
        expectation := .keyOrEnd }
  | _ => none

def beginField (reading : Reading) : Token → Option Reading
  | .text key =>
      match reading.frames with
      | .object fields sound :: rest =>
          some { reading with
            frames := .field fields sound key :: rest
            expectation := .colon }
      | _ => none
  | _ => none

def step? (reading : Reading) (token : Token) : Option Reading :=
  match reading.expectation, token with
  | .value, token => beginValue reading token
  | .valueOrEnd, .endArray => close reading true
  | .valueOrEnd, token => beginValue reading token
  | .key, token => beginField reading token
  | .keyOrEnd, .endObject => close reading false
  | .keyOrEnd, token => beginField reading token
  | .colon, .colon => some { reading with expectation := .value }
  | .commaOrEnd, .comma =>
      match reading.frames with
      | .array _ :: _ => some { reading with expectation := .value }
      | .object _ _ :: _ => some { reading with expectation := .key }
      | _ => none
  | .commaOrEnd, .endArray => close reading true
  | .commaOrEnd, .endObject => close reading false
  | _, _ => none

end Document

def parse? (text : String) : Option Json := do
  let tokens ← Token.scan? text
  let reading ← tokens.foldlM Document.step? {}
  reading.result

end ClassShrink.Json
