import MaterialGraph.ByteStream.Reader
import MaterialGraph.ByteStream.Writer
import MaterialGraph.Value.Basic

/-!
# Types and values as bytes

A type is its code.  A value is the code of its type followed by its content.
Types and values of other systems are written as a byte that no reader
accepts.
-/

namespace MaterialGraph

open ByteStream MonadRead

variable {m : Type → Type} [Monad m] [MonadExcept DecodeError m] [MonadRead m]

namespace ValueType

def encode : ValueType → List UInt8
  | basic type => [type.code]
  | foreign _ => [foreignCode]

def scan : m ValueType := do
  let code ← nextByte
  match BasicType.ofCode? code with
  | some type => return basic type
  | none => throw (.unknownType code)

def decode : Read ValueType :=
  scan

end ValueType

namespace Binary32

/-- A number is written as the integer that its bits spell. -/
def encode (number : Binary32) : List UInt8 :=
  encodeVarint number.bits.toNat

def scan : m Binary32 := do
  let bits ← scanWord
  return ⟨bits⟩

def decode : Read Binary32 :=
  scan

end Binary32

namespace BasicValue

/-- The content of a value, without the code of its type.  An integer is
written as the unsigned number with the same bits. -/
def encodeContent : BasicValue → List UInt8
  | bool truth => encodeFlag truth
  | int number => encodeVarint number.toUInt32.toNat
  | float number => number.encode
  | color red green blue => red.encode ++ green.encode ++ blue.encode
  | string content => encodeText content

/-- The content of a value of the given type; opaque types have none. -/
def scanContent : BasicType → m BasicValue
  | .bool => bool <$> scanFlag
  | .int => (fun word => int (Int32.ofUInt32 word)) <$> scanWord
  | .float => float <$> Binary32.scan
  | .color => do
      let red ← Binary32.scan
      let green ← Binary32.scan
      let blue ← Binary32.scan
      return color red green blue
  | .string => string <$> scanText
  | .bsdf => throw (.noValues BasicType.bsdf.code)
  | .material => throw (.noValues BasicType.material.code)

def decodeContent (type : BasicType) : Read BasicValue :=
  scanContent type

end BasicValue

namespace Value

def encode : Value → List UInt8
  | basic value => value.type.code :: value.encodeContent
  | foreign _ => [foreignCode]

def scan : m Value := do
  let code ← nextByte
  match BasicType.ofCode? code with
  | some type => basic <$> BasicValue.scanContent type
  | none => throw (.noValues code)

def decode : Read Value :=
  scan

end Value

end MaterialGraph
