import ClassShrink.Decimal.Basic
import ClassShrink.Json.Number

/-! # Shortest decimals

The decimal with the fewest digits that reads back as a given double. A finite
double is `m · 2^q`; the reals that round to it form an interval around it,
whose ends belong to it exactly when `m` is even. The search tries one digit,
two digits, and so on, and takes the first grid of decimals with a point in the
interval. -/

namespace ClassShrink.Decimal

/-- The interval of a positive double over a common denominator: its lower end,
the value, its upper end, and whether the ends belong to it. -/
private structure Interval where
  lower : Nat
  value : Nat
  upper : Nat
  denominator : Nat
  closed : Bool

private def interval (number : Double) : Interval :=
  let normal := number.biasedExponent != 0
  let significand := if normal then number.fraction + Nat.pow 2 52 else number.fraction
  let shift := (if normal then number.biasedExponent else 1) - 1
  -- Below a power of two the next smaller double is only half as far away.
  let gap := if number.fraction = 0 ∧ 1 < number.biasedExponent then 1 else 2
  -- Quarter units: the value is `4 · significand · 2^(shift - 1076)`.
  let factor := Nat.pow 2 (shift - 1076)
  { lower := (4 * significand - gap) * factor
    value := 4 * significand * factor
    upper := (4 * significand + 2) * factor
    denominator := Nat.pow 2 (1076 - shift)
    closed := significand % 2 = 0 }

private def leadingExponent (numerator denominator : Nat) : Int :=
  if denominator ≤ numerator then
    ((Nat.toDigits 10 (numerator / denominator)).length - 1 : Nat)
  else
    match (List.range 400).find? fun power => denominator ≤ numerator * Nat.pow 10 power with
    | some power => -(power : Int)
    | none => 0

/-- The better of the two decimals around the value on the grid `10^exponent`,
if one of them lies in the interval. Of two that do, the nearer is taken, and
the even one if they are equally near. -/
private def onGrid? (range : Interval) (exponent : Int) : Option Scaled :=
  let up := Nat.pow 10 exponent.toNat
  let down := Nat.pow 10 (-exponent).toNat
  -- Compare `digits · 10^exponent` with `x / denominator` without division.
  let unit := up * range.denominator
  let lower := range.lower * down
  let value := range.value * down
  let upper := range.upper * down
  let below := value / unit
  let inside (digits : Nat) : Bool :=
    if range.closed then lower ≤ digits * unit && digits * unit ≤ upper
    else lower < digits * unit && digits * unit < upper
  let remainder := value - below * unit
  let nearest :=
    if 2 * remainder < unit then below
    else if unit < 2 * remainder then below + 1
    else if below % 2 = 0 then below else below + 1
  if below ≠ 0 ∧ inside below ∧ inside (below + 1) then some ⟨nearest, exponent⟩
  else if below ≠ 0 ∧ inside below then some ⟨below, exponent⟩
  else if inside (below + 1) then some ⟨below + 1, exponent⟩
  else none

/-- Drop a last zero. The point above the value can be a power of ten, which has
one digit more than its grid asks for. -/
private def dropZero (decimal : Scaled) : Scaled :=
  if decimal.digits % 10 = 0 then ⟨decimal.digits / 10, decimal.exponent + 1⟩ else decimal

/-- The shortest decimal of a positive finite double; seventeen digits always
suffice. -/
def shortest (number : Double) : Scaled :=
  let range := interval number
  let leading := leadingExponent range.value range.denominator
  let found := (List.range 17).findSome? fun (count : Nat) => onGrid? range (leading - count)
  dropZero (found.getD ⟨0, 0⟩)

/-! ## Layout -/

/-- The decisions of a number format. A decimal is written without an exponent
mark if its point falls at most `leastPoint` zeros before and `mostPoint` digits
after the first digit; `signed` tells whether an exponent that is not negative
carries a plus sign. -/
structure Layout where
  leastPoint : Int
  mostPoint : Int
  signed : Bool

def Layout.writeExponent (layout : Layout) (exponent : Int) : String :=
  (if layout.signed ∧ 0 ≤ exponent then "e+" else "e") ++ toString exponent

def Layout.write (layout : Layout) (decimal : Scaled) : String :=
  let text := Nat.toDigits 10 decimal.digits
  let point := text.length + decimal.exponent
  if 0 ≤ decimal.exponent ∧ point ≤ layout.mostPoint then
    String.ofList (text ++ List.replicate decimal.exponent.toNat '0') ++ ".0"
  else if 0 < point ∧ point ≤ layout.mostPoint then
    String.ofList (text.take point.toNat) ++ "." ++ String.ofList (text.drop point.toNat)
  else if layout.leastPoint < point ∧ point ≤ 0 then
    "0." ++ String.ofList (List.replicate (-point).toNat '0' ++ text)
  else
    let mantissa := String.ofList (text.take 1) ++
      (if text.length = 1 then "" else "." ++ String.ofList (text.drop 1))
    mantissa ++ layout.writeExponent (point - 1)

end ClassShrink.Decimal
