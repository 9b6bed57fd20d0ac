import ClassShrink.Json.Number

/-! # JSON values

A value as it stands in a document: the fields of an object are in the order of
the document, repetitions included. -/

namespace ClassShrink

/-- A JSON value. `unusable` stands for what is grammatical but denotes nothing:
a number beyond the doubles, a text with half of a surrogate pair, or an object
with such a text as a key. It may occur where a document is skipped over, and
nowhere else. -/
inductive Json where
  | null
  | bool (value : Bool)
  | number (value : Json.Number)
  | string (value : String)
  | array (items : List Json)
  | object (fields : List (String × Json))
  | unusable
deriving Repr

namespace Json

/-! ## Equality -/

mutual

private def decideEq : (left right : Json) → Decidable (left = right)
  | .null, .null => isTrue rfl
  | .bool left, .bool right =>
      decidable_of_iff (left = right) (by simp)
  | .number left, .number right =>
      decidable_of_iff (left = right) (by simp)
  | .string left, .string right =>
      decidable_of_iff (left = right) (by simp)
  | .array left, .array right =>
      match decideEqItems left right with
      | isTrue equal => isTrue (by rw [equal])
      | isFalse different => isFalse (by simpa using different)
  | .object left, .object right =>
      match decideEqFields left right with
      | isTrue equal => isTrue (by rw [equal])
      | isFalse different => isFalse (by simpa using different)
  | .unusable, .unusable => isTrue rfl
  | .null, .bool _ | .null, .number _ | .null, .string _ | .null, .array _
  | .null, .object _ | .null, .unusable
  | .bool _, .null | .bool _, .number _ | .bool _, .string _ | .bool _, .array _
  | .bool _, .object _ | .bool _, .unusable
  | .number _, .null | .number _, .bool _ | .number _, .string _ | .number _, .array _
  | .number _, .object _ | .number _, .unusable
  | .string _, .null | .string _, .bool _ | .string _, .number _ | .string _, .array _
  | .string _, .object _ | .string _, .unusable
  | .array _, .null | .array _, .bool _ | .array _, .number _ | .array _, .string _
  | .array _, .object _ | .array _, .unusable
  | .object _, .null | .object _, .bool _ | .object _, .number _ | .object _, .string _
  | .object _, .array _ | .object _, .unusable
  | .unusable, .null | .unusable, .bool _ | .unusable, .number _ | .unusable, .string _
  | .unusable, .array _ | .unusable, .object _ => isFalse (by simp)

private def decideEqItems : (left right : List Json) → Decidable (left = right)
  | [], [] => isTrue rfl
  | left :: lefts, right :: rights =>
      match decideEq left right, decideEqItems lefts rights with
      | isTrue head, isTrue tail => isTrue (by rw [head, tail])
      | isFalse different, _ => isFalse (by simp [different])
      | _, isFalse different => isFalse (by simp [different])
  | [], _ :: _ | _ :: _, [] => isFalse (by simp)

private def decideEqFields : (left right : List (String × Json)) → Decidable (left = right)
  | [], [] => isTrue rfl
  | (leftKey, left) :: lefts, (rightKey, right) :: rights =>
      if keys : leftKey = rightKey then
        match decideEq left right, decideEqFields lefts rights with
        | isTrue head, isTrue tail => isTrue (by rw [keys, head, tail])
        | isFalse different, _ => isFalse (by simp [different])
        | _, isFalse different => isFalse (by simp [different])
      else isFalse (by simp [keys])
  | [], _ :: _ | _ :: _, [] => isFalse (by simp)

end

instance : DecidableEq Json := decideEq

/-! ## Nesting -/

mutual

def depth : Json → Nat
  | .array items => depthOfItems items + 1
  | .object fields => depthOfFields fields + 1
  | _ => 0

def depthOfItems : List Json → Nat
  | [] => 0
  | item :: rest => max item.depth (depthOfItems rest)

def depthOfFields : List (String × Json) → Nat
  | [] => 0
  | (_, value) :: rest => max value.depth (depthOfFields rest)

end

example : depth (.array [.null, .array []]) = 2 := rfl

/-! ## Settled values

A settled value has nothing unusable in it, and its objects list each key once,
in ascending order. -/

def setField (key : String) (value : Json) : List (String × Json) → List (String × Json)
  | [] => [(key, value)]
  | (other, old) :: rest =>
      if key < other then (key, value) :: (other, old) :: rest
      else if key = other then (key, value) :: rest
      else (other, old) :: setField key value rest

mutual

/-- The settled form of a value: of several fields with one key the last holds.
There is none if a part of the value is unusable. -/
def settle? : Json → Option Json
  | .array items => (settleItems? items).map .array
  | .object fields => (settleFields? [] fields).map .object
  | .unusable => none
  | other => some other

def settleItems? : List Json → Option (List Json)
  | [] => some []
  | item :: rest => do
      let item ← item.settle?
      let rest ← settleItems? rest
      some (item :: rest)

def settleFields? (settled : List (String × Json)) :
    List (String × Json) → Option (List (String × Json))
  | [] => some settled
  | (key, value) :: rest => do
      let value ← value.settle?
      settleFields? (setField key value settled) rest

end

mutual

def Settled : Json → Prop
  | .array items => SettledItems items
  | .object fields => fields.Pairwise (fun left right => left.1 < right.1) ∧ SettledFields fields
  | .unusable => False
  | _ => True

def SettledItems : List Json → Prop
  | [] => True
  | item :: rest => item.Settled ∧ SettledItems rest

def SettledFields : List (String × Json) → Prop
  | [] => True
  | (_, value) :: rest => value.Settled ∧ SettledFields rest

end

end Json

end ClassShrink
