import MaterialGraph.Text.Quoted
import MaterialGraph.Value.Binary32
import MaterialGraph.Value.Type

/-!
# Values

A value of a basic type, or a value of another system of which only the text
is known.  Values are ordered within their type; a value of another system is
ordered by text against everything.
-/

namespace MaterialGraph

/-- The values of the basic types that are not opaque. -/
inductive BasicValue
  | bool (truth : Bool)
  | int (number : Int32)
  | float (number : Binary32)
  | color (red green blue : Binary32)
  | string (content : String)
  deriving DecidableEq

namespace BasicValue

def type : BasicValue → BasicType
  | bool _ => .bool
  | int _ => .int
  | float _ => .float
  | color .. => .color
  | string _ => .string

/-- The text shown for a value. -/
def text : BasicValue → String
  | bool truth => if truth then "true" else "false"
  | int number => toString number.toInt
  | float number => number.text
  | color red green blue =>
      "color(" ++ red.text ++ ", " ++ green.text ++ ", " ++ blue.text ++ ")"
  | string content => Quoted.quote content

/-- Values of one type have the order of that type, values of different types
the order of their types. -/
protected def compare : BasicValue → BasicValue → Ordering
  | bool left, bool right => Ord.compare left right
  | int left, int right => Ord.compare left.toInt right.toInt
  | float left, float right => Ord.compare left right
  | color red green blue, color red' green' blue' =>
      (Ord.compare red red').then
        ((Ord.compare green green').then (Ord.compare blue blue'))
  | string left, string right => Ord.compare left right
  | left, right => Ord.compare left.type.code right.type.code

instance : Ord BasicValue := ⟨BasicValue.compare⟩

end BasicValue

/-- A basic value, or the text of a value of another system. -/
inductive Value
  | basic (value : BasicValue)
  | foreign (text : String)
  deriving DecidableEq

namespace Value

/-- The text shown for a value. -/
def text : Value → String
  | basic value => value.text
  | foreign shown => shown

/-- The type of a value; a value of another system counts as text. -/
def type : Value → ValueType
  | basic value => .basic value.type
  | foreign _ => .basic .string

/-- Basic values have their own order; any other pair is ordered by the texts. -/
protected def compare : Value → Value → Ordering
  | basic left, basic right => Ord.compare left right
  | left, right => Ord.compare left.text right.text

instance : Ord Value := ⟨Value.compare⟩

end Value

end MaterialGraph
