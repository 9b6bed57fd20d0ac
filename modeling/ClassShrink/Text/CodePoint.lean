/-! # Code points

Characters by their codes, as escapes in several formats write them. -/

namespace ClassShrink.Text

def hexValue? (digit : Char) : Option Nat :=
  if digit.isDigit then some (digit.toNat - '0'.toNat)
  else if 'a' ≤ digit ∧ digit ≤ 'f' then some (digit.toNat - 'a'.toNat + 10)
  else if 'A' ≤ digit ∧ digit ≤ 'F' then some (digit.toNat - 'A'.toNat + 10)
  else none

example : hexValue? 'C' = some 12 := rfl

def ofCode? (code : Nat) : Option Char :=
  if code < 0xD800 ∨ (0xE000 ≤ code ∧ code < 0x110000) then some (Char.ofNat code) else none

def withoutMark : List Char → List Char
  | '\ufeff' :: rest => rest
  | characters => characters

end ClassShrink.Text
