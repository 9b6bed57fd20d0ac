/-! # Numbers of a JSON document

A number is an exact integer in the range of 64-bit words, signed or unsigned,
or a double. Which of the two a numeral denotes is decided by its spelling. -/

namespace ClassShrink

structure Double where
  bits : UInt64
deriving DecidableEq, Repr

namespace Double

def ofFloat (value : Float) : Double :=
  ⟨value.toBits⟩

def isNegative (value : Double) : Bool :=
  Nat.pow 2 63 ≤ value.bits.toNat

def biasedExponent (value : Double) : Nat :=
  value.bits.toNat / Nat.pow 2 52 % Nat.pow 2 11

def fraction (value : Double) : Nat :=
  value.bits.toNat % Nat.pow 2 52

end Double

namespace Json

inductive Number where
  | integer (value : Int)
  | double (value : Double)
deriving DecidableEq, Repr

/-! ## Numerals -/

structure Numeral where
  negative : Bool
  whole : List Char
  fraction : Option (List Char)
  exponent : Option (Bool × List Char)
deriving DecidableEq, Repr

namespace Numeral

def digits? (characters : List Char) : Option (List Char × List Char) :=
  let digits := characters.takeWhile Char.isDigit
  if digits.isEmpty then none else some (digits, characters.dropWhile Char.isDigit)

def exponent? : List Char → Option (Option (Bool × List Char))
  | [] => some none
  | mark :: rest =>
      if mark = 'e' ∨ mark = 'E' then
        let (negative, rest) :=
          match rest with
          | '-' :: rest => (true, rest)
          | '+' :: rest => (false, rest)
          | rest => (false, rest)
        match digits? rest with
        | some (digits, []) => some (some (negative, digits))
        | _ => none
      else none

/-- Read a numeral: an optional minus, a whole part without surplus leading
zeros, an optional fraction and an optional exponent. -/
def ofChars? (characters : List Char) : Option Numeral := do
  let (negative, characters) :=
    match characters with
    | '-' :: rest => (true, rest)
    | rest => (false, rest)
  let (whole, rest) ← digits? characters
  if whole.length ≠ 1 ∧ whole.head? = some '0' then none
  match rest with
  | '.' :: rest =>
      let (fraction, rest) ← digits? rest
      let exponent ← exponent? rest
      some ⟨negative, whole, some fraction, exponent⟩
  | rest =>
      let exponent ← exponent? rest
      some ⟨negative, whole, none, exponent⟩

def digitValue (digit : Char) : Nat :=
  digit.toNat - '0'.toNat

/-! ## Value

A significand is gathered digit by digit as long as it fits a 64-bit word. The
digits that no longer fit are dropped: a dropped digit of the whole part raises
the decimal exponent. -/

def gather (significand : Nat) : List Char → Nat × List Char
  | [] => (significand, [])
  | digit :: rest =>
      let next := significand * 10 + digitValue digit
      if next < Nat.pow 2 64 then gather next rest else (significand, digit :: rest)

/-- Scale by a power of ten with one rounding for each power in `10^0 … 10^308`,
or nothing if the result is too large. -/
private def scale (value : Float) (exponent : Int) : Option Float :=
  if exponent.natAbs ≤ 308 then
    let power := Float.ofScientific 1 false exponent.natAbs
    if 0 ≤ exponent then
      let scaled := value * power
      if scaled.isInf then none else some scaled
    else some (value / power)
  else if value == 0 then some value
  else if exponentTooLarge : 0 ≤ exponent then none
  else scale (value / Float.ofScientific 1 false 308) (exponent + 308)
termination_by exponent.natAbs

def double? (numeral : Numeral) (significand : Nat) (exponent : Int) : Option Number :=
  (scale significand.toUInt64.toFloat exponent).map fun value =>
    .double (.ofFloat (if numeral.negative then -value else value))

private def exponentValue : Option (Bool × List Char) → Int
  | none => 0
  | some (negative, digits) =>
      let magnitude := digits.foldl (fun total digit => total * 10 + digitValue digit) 0
      if negative then -magnitude else magnitude

/-- The number that a numeral denotes, or nothing if it is beyond the doubles.
A bare integer in `-2^63 … 2^64 - 1` is exact, except that minus zero is a
double. -/
def value? (numeral : Numeral) : Option Number :=
  let (significand, dropped) := gather 0 numeral.whole
  match numeral.fraction, numeral.exponent with
  | none, none =>
      if dropped.isEmpty &&
          (!numeral.negative || (significand != 0 && significand ≤ Nat.pow 2 63)) then
        some (.integer (if numeral.negative then -significand else significand))
      else double? numeral significand dropped.length
  | fraction, exponent =>
      let (extended, cut) := gather significand (fraction.getD [])
      let taken := (fraction.getD []).length - cut.length
      double? numeral extended (dropped.length - taken + exponentValue exponent)

end Numeral

end Json

end ClassShrink
