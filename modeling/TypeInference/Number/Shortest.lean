/-!
# Shortest decimals

Of all decimals inside an interval around a positive number this module finds
one with the fewest digits and, among those, the one nearest to the number. A
grid of one more digit at a time is laid over the number; only the two grid
points next to the number have to be tested, because a grid that has a point in
the interval has one of these two in it. Everything is exact arithmetic on
natural numbers.
-/

namespace TypeInference.Shortest

/-- A positive number `value / scale` and the interval from `low / scale` to
`high / scale` around it; `closed` tells whether the ends belong to it. -/
structure Interval where
  low : Nat
  value : Nat
  high : Nat
  scale : Nat
  closed : Bool

/-- The digits of a decimal and the power of ten of its last digit. -/
structure Decimal where
  digits : Nat
  exponent : Int

namespace Interval

/-- Whether `number / denominator` lies in the interval. -/
def holds (interval : Interval) (number denominator : Nat) : Bool :=
  let scaled := number * interval.scale
  if interval.closed then
    decide (interval.low * denominator ≤ scaled) && decide (scaled ≤ interval.high * denominator)
  else
    decide (interval.low * denominator < scaled) && decide (scaled < interval.high * denominator)

/-- A power of ten as a fraction. -/
def power (exponent : Int) : Nat × Nat :=
  if 0 ≤ exponent then (Nat.pow 10 exponent.toNat, 1) else (1, Nat.pow 10 (-exponent).toNat)

/-- The nearer of the two points of the grid `10 ^ exponent` around the number
that lie in the interval; a tie goes to the upper one. -/
def onGrid (interval : Interval) (exponent : Int) : Option Decimal :=
  let (numerator, denominator) := power exponent
  let step := numerator * interval.scale
  let below := interval.value * denominator / step
  let rest := interval.value * denominator % step
  let lower := interval.holds (below * numerator) denominator
  let upper := interval.holds ((below + 1) * numerator) denominator
  match lower, upper with
  | true, true => some ⟨if 2 * rest < step then below else below + 1, exponent⟩
  | true, false => some ⟨below, exponent⟩
  | false, true => some ⟨below + 1, exponent⟩
  | false, false => none

/-- How many times the number has to grow by ten to reach one, searched up to a bound. -/
def leadingZeros (value scale : Nat) : Nat → Nat
  | 0 => 0
  | bound + 1 => if scale ≤ value then 0 else leadingZeros (value * 10) scale bound + 1

/-- The number of decimal digits of a natural number, searched up to a bound. -/
def width (number : Nat) : Nat → Nat
  | 0 => 0
  | bound + 1 => if number = 0 then 0 else width (number / 10) bound + 1

/-- The power of ten just above the number. -/
def magnitude (interval : Interval) : Int :=
  if interval.scale ≤ interval.value then
    (width (interval.value / interval.scale) (Nat.log2 interval.value + 1) : Int)
  else 1 - (leadingZeros interval.value interval.scale (Nat.log2 interval.scale + 1) : Int)

/-- The first hit on grids of growing numbers of digits. -/
def search (interval : Interval) (magnitude : Int) (digits : Nat) : Nat → Option Decimal
  | 0 => none
  | more + 1 =>
    match interval.onGrid (magnitude - digits) with
    | some decimal => some decimal
    | none => interval.search magnitude (digits + 1) more

/-- A shortest decimal of the interval with at most the given number of digits,
the nearest such to the number. -/
def shortest (interval : Interval) (limit : Nat) : Option Decimal :=
  interval.search interval.magnitude 1 limit

end Interval

/-- The decimal without zeros at its end. -/
def Decimal.trim (decimal : Decimal) : Nat → Decimal
  | 0 => decimal
  | bound + 1 =>
    if decimal.digits ≠ 0 ∧ decimal.digits % 10 = 0 then
      Decimal.trim ⟨decimal.digits / 10, decimal.exponent + 1⟩ bound
    else decimal

/-- The digits without exponent: zeros are added up to the point on either side.
With `point` an integer keeps its point and one zero. -/
def Decimal.positional (decimal : Decimal) (point : Bool) : String :=
  let digits := (toString decimal.digits).toList
  if 0 ≤ decimal.exponent then
    String.ofList (digits ++ List.replicate decimal.exponent.toNat '0')
      ++ (if point then ".0" else "")
  else
    let places := (-decimal.exponent).toNat
    let padded := List.replicate (places + 1 - digits.length) '0' ++ digits
    String.ofList (padded.take (padded.length - places)) ++ "."
      ++ String.ofList (padded.drop (padded.length - places))

/-- One digit before the point and a power of ten after an `e`. -/
def Decimal.scientific (decimal : Decimal) : String :=
  match (toString decimal.digits).toList with
  | [] => ""
  | first :: rest =>
    String.ofList [first] ++ (if rest.isEmpty then "" else "." ++ String.ofList rest)
      ++ "e" ++ toString (decimal.exponent + rest.length)

end TypeInference.Shortest
