import MaterialGraph.Decimal.Shortest

/-!
# Numbers of the IEEE 754 format binary32

A number is its bit pattern, so that both zeros and all payloads of a NaN are
different numbers.  The order is the total order of the standard; the text is
the shortest decimal that rounds to the number.
-/

namespace MaterialGraph

/-- A bit pattern of 32 bits: sign, eight bits of exponent, 23 of fraction. -/
structure Binary32 where
  bits : UInt32
  deriving DecidableEq, Repr

namespace Binary32

/-- The bit of the sign. -/
def signBit : Nat := 0x80000000

/-- The bit above the fraction: the lowest one of the exponent, and the leading
one, which is not stored, of a significand. -/
def leadingBit : Nat := 0x800000

def isNegative (number : Binary32) : Bool :=
  signBit ≤ number.bits.toNat

/-- The bits without the sign. -/
def magnitude (number : Binary32) : Nat :=
  number.bits.toNat % signBit

def exponentBits (number : Binary32) : Nat :=
  number.magnitude / leadingBit

def fractionBits (number : Binary32) : Nat :=
  number.magnitude % leadingBit

/-- The place of a number in the total order: negative numbers come first, the
greater magnitude before the smaller one. -/
def orderKey (number : Binary32) : Int :=
  if number.isNegative then
    -(number.magnitude : Int) - 1
  else
    number.magnitude

protected def compare (left right : Binary32) : Ordering :=
  Ord.compare left.orderKey right.orderKey

instance : Ord Binary32 := ⟨Binary32.compare⟩

/-- The reals that round to the magnitude of a finite number other than zero.
The unit is a quarter of the distance between the number and its upper
neighbour, because the lower neighbour of a power of two is half as far away. -/
def roundingInterval (number : Binary32) : Decimal.RoundingInterval :=
  let exponent := number.exponentBits
  let fraction := number.fractionBits
  let significand := if exponent = 0 then fraction else leadingBit + fraction
  -- the significand counts units of `2 ^ (scale - 149)`
  let scale := exponent - 1
  let lower := if fraction = 0 ∧ 1 < exponent then 1 else 2
  { low := (4 * significand - lower) * Nat.pow 2 scale
    value := 4 * significand * Nat.pow 2 scale
    high := (4 * significand + 2) * Nat.pow 2 scale
    denominator := Nat.pow 2 151
    closed := significand % 2 = 0 }

/-- Numbers are written positionally from `0.0001` up to below `10 ^ 16`. -/
def layout : Decimal.Layout where
  leastPositional := -4
  greatestPositional := 15

/-- The text of the magnitude of a number that is not a NaN. -/
def magnitudeText (number : Binary32) : List Char :=
  if number.exponentBits = 255 then
    "inf".toList
  else if number.magnitude = 0 then
    "0.0".toList
  else
    layout.write (number.roundingInterval.shortest 9)

def text (number : Binary32) : String :=
  if number.exponentBits = 255 ∧ number.fractionBits ≠ 0 then
    "NaN"
  else if number.isNegative then
    String.ofList ('-' :: number.magnitudeText)
  else
    String.ofList number.magnitudeText

end Binary32

end MaterialGraph
