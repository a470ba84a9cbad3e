/-!
# Decimals too large for a double

A number in a JSON text is refused when the nearest double would be infinite. The decision is made
in whole numbers.

- `roundToDouble`: the double nearest to a natural number, ties to even.
- `exceedsDouble m e`: whether `m · 10^e`, both factors rounded first, rounds to infinity.
-/

namespace LiveDesk.Json

/-- The natural number with 53 significant bits nearest to `n`, ties to even. -/
def roundToDouble (n : Nat) : Nat :=
  if n < Nat.pow 2 53 then n
  else
    let unit := Nat.pow 2 (n.log2 - 52)
    let quotient := n / unit
    let rest := n % unit
    let up := unit < 2 * rest || (2 * rest == unit && quotient % 2 == 1)
    (if up then quotient + 1 else quotient) * unit

/-- The least magnitude that rounds to infinity. -/
def infinityBound : Nat :=
  Nat.pow 2 1024 - Nat.pow 2 970

/-- Whether the product of the doubles nearest to `mantissa` and to `10 ^ exponent` is infinite. -/
def exceedsDouble (mantissa : Nat) (exponent : Int) : Bool :=
  if mantissa = 0 then false
  else if exponent < 0 then false
  else if 308 < exponent then true
  else decide (infinityBound ≤ roundToDouble mantissa * roundToDouble (Nat.pow 10 exponent.toNat))

end LiveDesk.Json
