/-!
# The shortest decimal that identifies a binary number

A binary floating-point number stands for all reals that round to it.  Among
the decimals in that interval the shortest ones are wanted, and of those the
nearest to the number itself.  For one digit, two digits and so on, the two
neighbours of the number on the grid of decimals with that many digits are
tested; the first grid with a hit decides.
-/

namespace MaterialGraph

/-- The number `digits * 10 ^ exponent`. -/
structure Decimal where
  digits : Nat
  exponent : Int
  deriving DecidableEq, Repr

namespace Decimal

/-- The reals between `low` and `high` that round to `value`, all three in
units of `1 / denominator`.  The ends belong to the interval if it is closed. -/
structure RoundingInterval where
  low : Nat
  value : Nat
  high : Nat
  denominator : Nat
  closed : Bool
  deriving Repr

/-- How many decimal digits a number has. -/
def digitCount (number : Nat) : Nat :=
  (Nat.toDigits 10 number).length

/-- The exponent of the greatest power of ten that is at most the positive
fraction `numerator / denominator`. -/
def leadingExponent (numerator denominator : Nat) : Int :=
  if denominator ≤ numerator then
    (digitCount (numerator / denominator) : Int) - 1
  else
    -(digitCount ((denominator - 1) / numerator) : Int)

namespace RoundingInterval

/-- The interval in units of `10 ^ exponent / denominator`, and how many of
these units lie between two points of the grid `10 ^ exponent`. -/
def onGrid (interval : RoundingInterval) (exponent : Int) :
    RoundingInterval × Nat :=
  let factor := Nat.pow 10 (-exponent).toNat
  let spacing := interval.denominator * Nat.pow 10 exponent.toNat
  ({ interval with
      low := interval.low * factor
      value := interval.value * factor
      high := interval.high * factor },
    spacing)

/-- Whether a point lies in the interval. -/
def holds (interval : RoundingInterval) (point : Nat) : Bool :=
  if interval.closed then
    interval.low ≤ point && point ≤ interval.high
  else
    interval.low < point && point < interval.high

/-- A neighbour of the value on the grid of multiples of `10 ^ exponent` that
lies in the interval, if there is one; the nearer one if there are two, and
the upper one if both are equally near. -/
def gridPoint? (interval : RoundingInterval) (exponent : Int) : Option Nat :=
  let (scaled, spacing) := interval.onGrid exponent
  let below := scaled.value / spacing
  let belowHolds := scaled.holds (below * spacing)
  let aboveHolds := scaled.holds ((below + 1) * spacing)
  let remainder := scaled.value % spacing
  if belowHolds && (!aboveHolds || 2 * remainder < spacing) then
    some below
  else if aboveHolds then
    some (below + 1)
  else
    none

/-- Search the grids of `exponent`, `exponent - 1`, … for a point in the
interval, at most `grids` of them.  When none has one, the value is cut off on
the last grid. -/
def search (interval : RoundingInterval) : (grids : Nat) → (exponent : Int) →
    Decimal
  | 0, exponent =>
      let (scaled, spacing) := interval.onGrid exponent
      ⟨scaled.value / spacing, exponent⟩
  | grids + 1, exponent =>
      match interval.gridPoint? exponent with
      | some digits => ⟨digits, exponent⟩
      | none => search interval grids (exponent - 1)

/-- The shortest decimal in the interval of a positive value, if at most
`maxDigits` digits identify it. -/
def shortest (interval : RoundingInterval) (maxDigits : Nat) : Decimal :=
  interval.search maxDigits (leadingExponent interval.value interval.denominator)

end RoundingInterval

/-- How a decimal is written: positionally while the exponent of its leading
digit lies within the two bounds, and with an exponent otherwise. -/
structure Layout where
  leastPositional : Int
  greatestPositional : Int
  deriving Repr

namespace Layout

/-- Digits with a point after the leading one, if others follow. -/
def mantissa : List Char → List Char
  | [] => ['0']
  | [digit] => [digit]
  | digit :: others => digit :: '.' :: others

/-- Digits without the zeros at their end. -/
def trimZeros (digits : List Char) : List Char :=
  (digits.reverse.dropWhile (· = '0')).reverse

/-- Digits around the point, whose leading digit has the given exponent.  At
least one digit stands on either side. -/
def positional (digits : List Char) (leading : Int) : List Char :=
  if leading < 0 then
    ['0', '.'] ++ List.replicate (-leading - 1).toNat '0' ++ digits
  else
    let whole := leading.toNat + 1
    let padded := digits ++ List.replicate (whole - digits.length) '0'
    let fraction := padded.drop whole
    padded.take whole ++ ['.'] ++ (if fraction.isEmpty then ['0'] else fraction)

/-- Digits with an exponent. -/
def scientific (digits : List Char) (leading : Int) : List Char :=
  mantissa digits ++ ['e'] ++ (toString leading).toList

/-- The text of a positive decimal. -/
def write (layout : Layout) (decimal : Decimal) : List Char :=
  let all := Nat.toDigits 10 decimal.digits
  let leading := decimal.exponent + all.length - 1
  let digits := trimZeros all
  if layout.leastPositional ≤ leading && leading ≤ layout.greatestPositional then
    positional digits leading
  else
    scientific digits leading

end Layout

end Decimal

end MaterialGraph
