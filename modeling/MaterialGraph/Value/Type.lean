/-!
# Types of values

The basic types are the scalars, colors and text, and two opaque types that
only calls produce.  A type of another system is known by its text alone.
-/

namespace MaterialGraph

/-- The types that the library knows, in their order. -/
inductive BasicType
  | bool
  | int
  | float
  | color
  | string
  | bsdf
  | material
  deriving DecidableEq, Repr

namespace BasicType

/-- The number of a type, which is its stored byte and its place in the order. -/
def code : BasicType → UInt8
  | bool => 0
  | int => 1
  | float => 2
  | color => 3
  | string => 4
  | bsdf => 5
  | material => 6

def ofCode? (code : UInt8) : Option BasicType :=
  match code.toNat with
  | 0 => some bool
  | 1 => some int
  | 2 => some float
  | 3 => some color
  | 4 => some string
  | 5 => some bsdf
  | 6 => some material
  | _ => none

def text : BasicType → String
  | bool => "bool"
  | int => "int"
  | float => "float"
  | color => "color"
  | string => "string"
  | bsdf => "bsdf"
  | material => "material"

end BasicType

/-- The byte stored for a type or value of another system.  It is the code of
no type, so that such an object cannot be read back. -/
def foreignCode : UInt8 := 255

/-- A basic type, or the text of a type of another system. -/
inductive ValueType
  | basic (type : BasicType)
  | foreign (text : String)
  deriving DecidableEq, Repr

namespace ValueType

/-- The text shown for a type. -/
def text : ValueType → String
  | basic type => type.text
  | foreign shown => shown

/-- Basic types have a fixed order; any other pair is ordered by the texts. -/
protected def compare : ValueType → ValueType → Ordering
  | basic left, basic right => Ord.compare left.code right.code
  | left, right => Ord.compare left.text right.text

instance : Ord ValueType := ⟨ValueType.compare⟩

end ValueType

end MaterialGraph
