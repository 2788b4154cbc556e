import MaterialGraph.ByteStream.Reader
import MaterialGraph.ByteStream.Writer

/-!
# Sequences of mixed items

A stream may hold items of any shapes one after the other.  Nothing in the
bytes tells the shapes apart: who reads has to ask for the shapes in the order
in which they were written.
-/

namespace MaterialGraph

namespace ByteStream

/-- One item of a stream. -/
inductive Item
  | byte (byte : UInt8)
  | long (number : UInt64)
  | size (number : UInt64)
  | flag (flag : Bool)
  | text (text : String)
  | block (bytes : List UInt8)
  deriving DecidableEq, Repr

/-- What a reader has to know of an item in order to read it. -/
inductive Shape
  | byte
  | long
  | size
  | flag
  | text
  | block (count : UInt64)
  deriving DecidableEq, Repr

namespace Item

def encode : Item → List UInt8
  | .byte octet => [octet]
  | .long number => encodeVarint number.toNat
  | .size number => encodeVarint number.toNat
  | .flag answer => encodeFlag answer
  | .text content => encodeText content
  | .block content => content

def shape : Item → Shape
  | .byte _ => .byte
  | .long _ => .long
  | .size _ => .size
  | .flag _ => .flag
  | .text _ => .text
  | .block content => .block (UInt64.ofNat content.length)

/-- The items one after the other. -/
def encodeAll (items : List Item) : List UInt8 :=
  items.flatMap encode

/-- How many bytes have been written after each of the items. -/
def lengths (items : List Item) : List Nat :=
  go 0 items
where
  go (written : Nat) : List Item → List Nat
    | [] => []
    | item :: items =>
        let written := written + item.encode.length
        written :: go written items

end Item

namespace Shape

def read : Shape → Read Item
  | .byte => Item.byte <$> readByte
  | .long => Item.long <$> readVarint
  | .size => Item.size <$> readVarint
  | .flag => Item.flag <$> readFlag
  | .text => Item.text <$> readText
  | .block count => (fun block => Item.block block.toList) <$> readBlock count.toNat

end Shape

end ByteStream

end MaterialGraph
