import MaterialGraph.Decimal.Shortest
import MaterialGraph.Json.Literal
import MaterialGraph.Text.Quoted

/-!
# What is found in JSON text

Those who want something else are told what they have found: a value that
stands alone with its content, a list or an object by its kind.  A number is an
integer if 64 bits can hold it and it has neither fraction nor exponent, and a
decimal otherwise.
-/

namespace MaterialGraph

namespace Json

/-- The values that hold others. -/
inductive Container
  | list
  | object
  deriving DecidableEq, Repr

/-- What stands in a text, for those who want something else. -/
inductive Found
  | null
  | truth (value : Bool)
  | integer (value : Int)
  | decimal (spelling : String)
  | text (content : String)
  | container (container : Container)
  deriving DecidableEq, Repr

namespace Found

/-- The parts of the literal of a number: the digits before the point, those
after it, and the exponent. -/
def parts (literal : List Char) : List Char × List Char × Int :=
  let magnitude := literal.dropWhile (· = '-')
  let whole := magnitude.takeWhile Char.isDigit
  let rest := (magnitude.drop whole.length).dropWhile (· = '.')
  let fraction := rest.takeWhile Char.isDigit
  let exponent : Int :=
    match (rest.drop fraction.length).drop 1 with
    | '-' :: digits => -digitsValue digits
    | '+' :: digits => digitsValue digits
    | digits => digitsValue digits
  (whole, fraction, exponent)

/-- Decimals are written positionally from `0.00001` up to below `10 ^ 16`. -/
def layout : Decimal.Layout where
  leastPositional := -5
  greatestPositional := 15

/-- The greatest exponent that the leading digit of a decimal may have. -/
def greatestExponent : Int := 308

/-- The decimal that a literal spells, unless it is too large. -/
def decimalOf? (literal : List Char) : Option Found :=
  let (whole, fraction, exponent) := parts literal
  let sign := literal.takeWhile (· = '-')
  let digits := digitsValue (whole ++ fraction)
  let exponent := exponent - fraction.length
  if digits = 0 then
    some (decimal (String.ofList (sign ++ "0.0".toList)))
  else if greatestExponent < exponent + Decimal.digitCount digits - 1 then
    none
  else
    some (decimal (String.ofList (sign ++ layout.write ⟨digits, exponent⟩)))

/-- The integer of 64 bits that a literal spells, with a sign if it is
negative. -/
def integer? (literal : List Char) : Option Int :=
  match literal with
  | '-' :: digits =>
      match natural? digits with
      | some number =>
          if 0 < number ∧ 2 * number ≤ UInt64.size then some (-number) else none
      | none => none
  | digits => (long? digits).map fun number => (number.toNat : Int)

/-- The number that a literal spells, unless it is too large. -/
def ofNumber? (literal : List Char) : Option Found :=
  match integer? literal with
  | some value => some (integer value)
  | none => decimalOf? literal

def noun : Found → String
  | null => "null"
  | truth value => "boolean `" ++ toString value ++ "`"
  | integer value => "integer `" ++ toString value ++ "`"
  | decimal spelling => "floating point `" ++ spelling ++ "`"
  | text content => "string " ++ Quoted.quote content
  | container .list => "sequence"
  | container .object => "map"

end Found

end Json

end MaterialGraph
