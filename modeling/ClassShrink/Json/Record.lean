import ClassShrink.Json.Value
import ClassShrink.Record

/-! # Records in JSON

A record is an object, in which unknown fields are ignored, or an array of its
values in the order of the fields, without surplus values. A choice is its name,
or an object with that name as its only key and `null` as its value. -/

namespace ClassShrink.Json

def text? : Json → Option String
  | .string value => some value
  | _ => none

def flag? : Json → Option Bool
  | .bool value => some value
  | _ => none

def items? : Json → Option (List Json)
  | .array items => some items
  | _ => none

def choice? : Json → Option String
  | .string value => some value
  | .object [(key, .null)] => some key
  | _ => none

def fields? (known : List String) : Json → Option (List (String × Json))
  | .object fields => Record.select? known fields
  | .array items => if items.length ≤ known.length then some (known.zip items) else none
  | _ => none

def dialect : Dialect Json :=
  { text?, flag?, items?, choice?, fields? }

def nullable? {β : Type} (read : Json → Option β) : Json → Option (Option β)
  | .null => some none
  | value => (read value).map some

def count? : Json → Option Nat
  | .number (.integer value) => if 0 ≤ value then some value.toNat else none
  | _ => none

def ofNat (value : Nat) : Json :=
  .number (.integer value)

def ofTexts (texts : List String) : Json :=
  .array (texts.map .string)

def ofNats (values : List Nat) : Json :=
  .array (values.map ofNat)

end ClassShrink.Json
