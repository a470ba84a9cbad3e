/-!
# Binary fractions

The real numbers that a table cell can hold: integers times a power of two, with at most 53
significant bits.

- `Binary.ofDecimal`: the nearest one to a decimal, ties to even.
- `Binary.compareInt`, `Binary.compare`: exact comparison.
- `Binary.text`: at most 15 significant digits, with a decimal point and at least one digit behind
  it; far from 1 with an exponent.
-/

namespace LiveDesk.Storage

/-- The number `mantissa · 2^exponent`; the mantissa is odd, or both are zero. -/
structure Binary where
  mantissa : Int
  exponent : Int
  deriving DecidableEq, Repr, Inhabited

namespace Binary

/-- How often `n` can be halved, for `n` below `2 ^ fuel`. -/
def halvings : Nat → Nat → Nat
  | 0, _ => 0
  | fuel + 1, n => if n % 2 = 0 then halvings fuel (n / 2) + 1 else 0

/-- The number with its mantissa made odd. -/
def normal (negative : Bool) (n : Nat) (exponent : Int) : Binary :=
  if n = 0 then ⟨0, 0⟩
  else
    let k := halvings (n.log2 + 1) n
    let odd : Int := ↑(n / Nat.pow 2 k)
    ⟨if negative then -odd else odd, exponent + k⟩

/-- The nearest number to a positive ratio. -/
def ofRatio (negative : Bool) (num den : Nat) : Binary :=
  if num = 0 then ⟨0, 0⟩
  else
    let shift : Int := 55 + den.log2 - num.log2
    let scaledNum := if 0 ≤ shift then num * Nat.pow 2 shift.toNat else num
    let scaledDen := if 0 ≤ shift then den else den * Nat.pow 2 (-shift).toNat
    let quotient := scaledNum / scaledDen
    let exact := scaledNum % scaledDen == 0
    let dropped := quotient.log2 - 52
    let unit := Nat.pow 2 dropped
    let kept := quotient / unit
    let rest := quotient % unit
    let up := unit < 2 * rest || (2 * rest == unit && (!exact || kept % 2 == 1))
    normal negative (if up then kept + 1 else kept) (dropped - shift)

/-- The nearest number to `mantissa · 10^exponent`. -/
def ofDecimal (negative : Bool) (mantissa : Nat) (exponent : Int) : Binary :=
  if 0 ≤ exponent then ofRatio negative (mantissa * Nat.pow 10 exponent.toNat) 1
  else ofRatio negative mantissa (Nat.pow 10 (-exponent).toNat)

/-- The whole number that it is, if it is one. -/
def toInt? (x : Binary) : Option Int :=
  if 0 ≤ x.exponent then some (x.mantissa * Nat.pow 2 x.exponent.toNat) else none

/-- The order of two numbers. -/
def compare (x y : Binary) : Ordering :=
  let low := min x.exponent y.exponent
  let scaled (z : Binary) : Int := z.mantissa * Nat.pow 2 (z.exponent - low).toNat
  Ord.compare (scaled x) (scaled y)

/-- The order of a number and a whole number. -/
def compareInt (x : Binary) (n : Int) : Ordering :=
  x.compare ⟨n, 0⟩

/-! ## Text -/

/-- The decimal places that are computed before rounding. -/
def places : Nat := 400

/-- The first 15 significant digits, rounded, and the decimal exponent of the first one. -/
def significant (x : Binary) : Nat × Int :=
  let m := x.mantissa.natAbs
  let scaled :=
    if 0 ≤ x.exponent then m * Nat.pow 2 x.exponent.toNat * Nat.pow 10 places
    else m * Nat.pow 10 places / Nat.pow 2 (-x.exponent).toNat
  let length := (Nat.toDigits 10 scaled).length
  let exponent : Int := length - 1 - places
  let unit := Nat.pow 10 (length - 15)
  let kept := scaled / unit
  let rounded := if unit ≤ 2 * (scaled % unit) then kept + 1 else kept
  if rounded = Nat.pow 10 15 then (Nat.pow 10 14, exponent + 1) else (rounded, exponent)

/-- The digits without the zeros at their end. -/
def stripZeros (ds : List Char) : List Char :=
  (ds.reverse.dropWhile (· == '0')).reverse

/-- Digits that are not empty. -/
def orZero (ds : List Char) : List Char :=
  if ds.isEmpty then ['0'] else ds

/-- An exponent with its sign and at least two digits. -/
def exponentText (e : Int) : List Char :=
  let ds := Nat.toDigits 10 e.natAbs
  'e' :: (if e < 0 then '-' else '+') :: (if ds.length < 2 then '0' :: ds else ds)

/-- The text of a number. -/
def text (x : Binary) : String :=
  if x.mantissa = 0 then "0.0"
  else
    let (rounded, exponent) := x.significant
    let ds := Nat.toDigits 10 rounded
    let sign := if x.mantissa < 0 then ['-'] else []
    String.ofList <| sign ++
      if exponent < -4 ∨ 14 < exponent then
        ds.take 1 ++ '.' :: orZero (stripZeros (ds.drop 1)) ++ exponentText exponent
      else if exponent < 0 then
        '0' :: '.' :: List.replicate (-exponent - 1).toNat '0' ++ stripZeros ds
      else
        let whole := exponent.toNat + 1
        ds.take whole ++ '.' :: orZero (stripZeros (ds.drop whole))

end Binary

end LiveDesk.Storage
