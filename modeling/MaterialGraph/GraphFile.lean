import MaterialGraph.Expression.Wire

/-!
# Graph files

A graph file is the four characters `MDLX`, the version of the format, and one
expression.  Nothing may follow it.
-/

namespace MaterialGraph

open ByteStream

namespace GraphFile

/-- The characters that open every graph file. -/
def magic : List UInt8 := [0x4d, 0x44, 0x4c, 0x58]

/-- The only version of the format. -/
def version : UInt8 := 1

def encode (expression : Expression) : List UInt8 :=
  magic ++ version :: expression.encode

/-- The header of a file.  A file that ends within it has none. -/
def readHeader : Read Unit := fun reader =>
  match readBlock magic.length reader with
  | .error _ left => .error .badHeader left
  | .ok block reader =>
      if block.toList = magic then
        match readByte reader with
        | .error _ left => .error .badHeader left
        | .ok found reader =>
            if found = version then
              .ok () reader
            else
              .error (.unsupportedVersion found) reader
      else
        .error .badHeader reader

/-- The end of a file. -/
def readEnd : Read Unit := fun reader =>
  if reader.atEnd then
    .ok () reader
  else
    .error (.trailingBytes reader.remaining) reader

def read : Read Expression := do
  readHeader
  let expression ← Expression.decode
  readEnd
  return expression

/-- The expression in a file, or why there is none. -/
def decode (bytes : List UInt8) : Except DecodeError Expression :=
  match read (.ofList bytes) with
  | .ok expression _ => .ok expression
  | .error reason _ => .error reason

end GraphFile

end MaterialGraph
