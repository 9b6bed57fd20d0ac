/-! # Decimals

Positive decimals by their digits and a power of ten, and the largest of them
that doubles can stand for. -/

namespace ClassShrink.Decimal

/-- A decimal `digits · 10^exponent`. -/
structure Scaled where
  digits : Nat
  exponent : Int
deriving DecidableEq, Repr

namespace Scaled

def magnitude (decimal : Scaled) : Int :=
  (Nat.toDigits 10 decimal.digits).length + decimal.exponent

/-- Half way between the largest double and the power of two after it. From here
on decimals are nearer to infinity than to any double. -/
def doubleLimit : Nat :=
  Nat.pow 2 1024 - Nat.pow 2 970

/-- Whether a decimal is too large for a double. The limit has 309 digits, so the
exact comparison is needed for decimals of that magnitude only. -/
def exceedsDoubles (decimal : Scaled) : Bool :=
  if decimal.digits = 0 ∨ decimal.magnitude < 309 then false
  else if 309 < decimal.magnitude then true
  else
    decide (doubleLimit * Nat.pow 10 (-decimal.exponent).toNat ≤
      decimal.digits * Nat.pow 10 decimal.exponent.toNat)

example : (⟨17976931348623157, 292⟩ : Scaled).exceedsDoubles = false := by decide +kernel

example : (⟨18, 307⟩ : Scaled).exceedsDoubles = true := by decide +kernel

end Scaled

end ClassShrink.Decimal
