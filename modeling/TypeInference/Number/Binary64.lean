import TypeInference.Number.Shortest

/-!
# Binary floating-point numbers

A number of the format binary64 is kept as its 64 bits: a sign, eleven bits of
exponent and 52 bits of fraction. Negation turns the sign bit. In comparison all
texts for "not a number" are equal and both zeros are equal. A number is written
with the fewest digits that read back to it.
-/

namespace TypeInference

/-- A binary64 number by its bits. -/
structure Binary64 where
  bits : UInt64
deriving DecidableEq, Inhabited

namespace Binary64

/-- Whether the sign bit is set. -/
def isNegative (number : Binary64) : Bool :=
  number.bits >>> 63 == 1

/-- The eleven bits of the exponent. -/
def exponentBits (number : Binary64) : Nat :=
  ((number.bits >>> 52) &&& 0x7FF).toNat

/-- The 52 bits of the fraction. -/
def fractionBits (number : Binary64) : Nat :=
  (number.bits &&& 0xFFFFFFFFFFFFF).toNat

/-- Whether the bits denote no number. -/
def isNaN (number : Binary64) : Bool :=
  number.exponentBits == 0x7FF && number.fractionBits != 0

/-- Whether the bits denote an infinity. -/
def isInfinite (number : Binary64) : Bool :=
  number.exponentBits == 0x7FF && number.fractionBits == 0

/-- Whether the bits denote one of the two zeros. -/
def isZero (number : Binary64) : Bool :=
  number.exponentBits == 0 && number.fractionBits == 0

/-- The number with the other sign. -/
def negate (number : Binary64) : Binary64 :=
  ⟨number.bits ^^^ 0x8000000000000000⟩

/-- The word that equal numbers share: one for all that is no number, one for
both zeros, the bits for the rest. -/
def representative (number : Binary64) : UInt64 :=
  if number.isNaN then 0x7FF8000000000000 else if number.isZero then 0 else number.bits

/-- Equality under which what is no number equals itself and the zeros are equal. -/
instance : BEq Binary64 where
  beq first second := first.representative == second.representative

/-- The numbers that round to this positive finite number. The gap below a power
of two is half the gap above it, except at the smallest exponent. An end belongs
to the interval when the fraction is even. -/
def roundingInterval (number : Binary64) : Shortest.Interval :=
  let fraction := number.fractionBits
  let normal := number.exponentBits != 0
  let significand := if normal then fraction + Nat.pow 2 52 else fraction
  let exponent := if normal then number.exponentBits - 1 else 0
  let lower := if fraction == 0 && number.exponentBits > 1 then 1 else 2
  let unit := Nat.pow 2 exponent
  { low := (4 * significand - lower) * unit, value := 4 * significand * unit,
    high := (4 * significand + 2) * unit, scale := Nat.pow 2 1076,
    closed := fraction % 2 == 0 }

/-- The shortest decimal that reads back to a positive finite number. -/
def shortest (number : Binary64) : Shortest.Decimal :=
  match number.roundingInterval.shortest 17 with
  | some decimal => decimal.trim 17
  | none => ⟨0, 0⟩

/-- The sign, the words for what is not finite, or the digits as they are
written by a given rule. -/
def written (number : Binary64) (digits : Shortest.Decimal → String) : String :=
  if number.isNaN then "NaN"
  else
    let magnitude :=
      if number.isInfinite then "inf"
      else if number.isZero then digits ⟨0, 0⟩
      else digits number.shortest
    (if number.isNegative then "-" else "") ++ magnitude

/-- The fewest digits without exponent; an integer has no point. -/
def text (number : Binary64) : String :=
  number.written fun decimal => decimal.positional false

/-- The fewest digits with a point; from ten to the sixteenth on, and below ten
to the minus fourth, with a power of ten. -/
def debugText (number : Binary64) : String :=
  number.written fun decimal =>
    let leading := decimal.exponent + (toString decimal.digits).length - 1
    if decimal.digits ≠ 0 ∧ (16 ≤ leading ∨ leading < -4) then decimal.scientific
    else decimal.positional true

/-- A number equals itself, also when the bits denote no number. -/
@[simp] theorem beq_self (number : Binary64) : (number == number) = true := by
  simp [BEq.beq]

end Binary64

end TypeInference
