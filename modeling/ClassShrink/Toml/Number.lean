import ClassShrink.Decimal.Basic
import ClassShrink.Text.CodePoint
import ClassShrink.Text.Search

/-! # Numbers of TOML

Integers in four bases and floats. They are checked for their form and range and
not kept. -/

namespace ClassShrink.Toml

/-! ## Digits -/

def isDigitRun (isDigit : Char → Bool) (characters : List Char) : Bool :=
  (Text.pieces '_' characters).all fun group => !group.isEmpty && group.all isDigit

def withoutSign : List Char → List Char
  | '+' :: rest => rest
  | '-' :: rest => rest
  | characters => characters

def isDecimal (characters : List Char) : Bool :=
  isDigitRun Char.isDigit characters && (characters.length = 1 || characters.head? ≠ some '0')

def digitsValue (base : Nat) (characters : List Char) : Nat :=
  characters.foldl (fun total digit =>
    match Text.hexValue? digit with
    | some value => total * base + value
    | none => total) 0

/-! ## Integers -/

def isInteger : List Char → Bool
  | '0' :: 'x' :: digits =>
      isDigitRun (fun digit => (Text.hexValue? digit).isSome) digits &&
        digitsValue 16 digits < Nat.pow 2 63
  | '0' :: 'o' :: digits =>
      isDigitRun (fun digit => '0' ≤ digit && digit ≤ '7') digits &&
        digitsValue 8 digits < Nat.pow 2 63
  | '0' :: 'b' :: digits =>
      isDigitRun (fun digit => digit == '0' || digit == '1') digits &&
        digitsValue 2 digits < Nat.pow 2 63
  | characters =>
      let magnitude := digitsValue 10 (withoutSign characters)
      isDecimal (withoutSign characters) &&
        (magnitude < Nat.pow 2 63 || (characters.head? = some '-' && magnitude = Nat.pow 2 63))

/-! ## Floats -/

def exponent? : List Char → Option Int
  | [] => some 0
  | characters =>
      if isDigitRun Char.isDigit (withoutSign characters) then
        let magnitude : Int := digitsValue 10 (withoutSign characters)
        some (if characters.head? = some '-' then -magnitude else magnitude)
      else none

def float? (unsigned : List Char) : Option Decimal.Scaled := do
  let mantissa := unsigned.takeWhile fun character => character != 'e' && character != 'E'
  let marked := unsigned.drop mantissa.length
  let exponent ← if marked.length = 1 then none else exponent? (marked.drop 1)
  match Text.cutAtFirst '.' mantissa with
  | some (whole, fraction) =>
      if isDecimal whole && isDigitRun Char.isDigit fraction then
        let places := (fraction.filter (· != '_')).length
        some ⟨digitsValue 10 (whole ++ fraction), exponent - places⟩
      else none
  | none =>
      if isDecimal mantissa && !marked.isEmpty then some ⟨digitsValue 10 mantissa, exponent⟩
      else none

/-- A float, which may be infinite only by name or below zero. -/
def isFloat (characters : List Char) : Bool :=
  let unsigned := withoutSign characters
  unsigned = ['i', 'n', 'f'] || unsigned = ['n', 'a', 'n'] ||
    (float? unsigned).any fun decimal =>
      characters.head? = some '-' || !decimal.exceedsDoubles

example : isFloat ['1', '_', '0', 'e', '3', '_', '0', '7'] = true := by decide +kernel

example : isFloat ['1', '_', '0', 'e', '3', '_', '0', '8'] = false := by decide +kernel

end ClassShrink.Toml
