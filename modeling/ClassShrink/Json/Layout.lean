import ClassShrink.Json.Value
import ClassShrink.Decimal.Shortest

/-! # JSON text

Writing a value in one line, or with one part of a container on each line. -/

namespace ClassShrink.Json

/-! ## Scalars -/

/-- Doubles are written with a point or an exponent, so that they read back as
doubles: positionally from `0.00001` up to sixteen digits before the point, and
beyond that as in `1e-6` and `1e+16`. -/
def doubleLayout : Decimal.Layout :=
  { leastPoint := -5, mostPoint := 16, signed := true }

example : doubleLayout.write ⟨15, 299⟩ = "1.5e+300" := by decide +kernel
example : doubleLayout.write ⟨1, 15⟩ = "1000000000000000.0" := by decide +kernel
example : doubleLayout.write ⟨1, -6⟩ = "1e-6" := by decide +kernel

def writeDouble (value : Double) : String :=
  let sign := if value.isNegative then "-" else ""
  if value.biasedExponent = 0 ∧ value.fraction = 0 then sign ++ "0.0"
  else sign ++ doubleLayout.write (Decimal.shortest value)

def writeNumber : Number → String
  | .integer value => toString value
  | .double value => writeDouble value

def hexDigit (value : Nat) : Char :=
  Char.ofNat (if value < 10 then value + '0'.toNat else value - 10 + 'a'.toNat)

/-- A character inside quotes. Only the quote, the backslash and the control
characters below the blank are escaped. -/
def escape (character : Char) : List Char :=
  if character = '"' then ['\\', '"']
  else if character = '\\' then ['\\', '\\']
  else if character = '\x08' then ['\\', 'b']
  else if character = '\x0c' then ['\\', 'f']
  else if character = '\n' then ['\\', 'n']
  else if character = '\r' then ['\\', 'r']
  else if character = '\t' then ['\\', 't']
  else if character.toNat < 0x20 then
    ['\\', 'u', '0', '0', hexDigit (character.toNat / 16), hexDigit (character.toNat % 16)]
  else [character]

def quote (text : String) : String :=
  String.ofList ('"' :: text.toList.flatMap escape ++ ['"'])

example : escape '\x1f' = ['\\', 'u', '0', '0', '1', 'f'] := by decide

/-! ## Containers -/

mutual

def compact : Json → String
  | .null => "null"
  | .bool true => "true"
  | .bool false => "false"
  | .number value => writeNumber value
  | .string value => quote value
  | .array items => "[" ++ compactItems items ++ "]"
  | .object fields => "\x7b" ++ compactFields fields ++ "\x7d"
  | .unusable => "null"

def compactItems : List Json → String
  | [] => ""
  | [item] => item.compact
  | item :: rest => item.compact ++ "," ++ compactItems rest

def compactFields : List (String × Json) → String
  | [] => ""
  | [(key, value)] => quote key ++ ":" ++ value.compact
  | (key, value) :: rest => quote key ++ ":" ++ value.compact ++ "," ++ compactFields rest

end

def margin (level : Nat) : String :=
  String.ofList ('\n' :: List.replicate (2 * level) ' ')

mutual

def prettyAt (level : Nat) : Json → String
  | .array [] => "[]"
  | .array items => "[" ++ prettyItems (level + 1) items ++ margin level ++ "]"
  | .object [] => "\x7b\x7d"
  | .object fields => "\x7b" ++ prettyFields (level + 1) fields ++ margin level ++ "\x7d"
  | other => other.compact

def prettyItems (level : Nat) : List Json → String
  | [] => ""
  | [item] => margin level ++ prettyAt level item
  | item :: rest => margin level ++ prettyAt level item ++ "," ++ prettyItems level rest

def prettyFields (level : Nat) : List (String × Json) → String
  | [] => ""
  | [(key, value)] => margin level ++ quote key ++ ": " ++ prettyAt level value
  | (key, value) :: rest =>
      margin level ++ quote key ++ ": " ++ prettyAt level value ++ "," ++ prettyFields level rest

end

def pretty (value : Json) : String :=
  prettyAt 0 value

end ClassShrink.Json
