/-!
# Writing numbers, truth values and text as bytes

An integer is written in groups of seven bits, least significant group first;
the high bit is set on every byte but the last.  Text is preceded by the
number of its bytes.
-/

namespace MaterialGraph

namespace ByteStream

/-- The shortest sequence of seven-bit groups whose value is `number`. -/
def encodeVarint (number : Nat) : List UInt8 :=
  if number < 128 then
    [UInt8.ofNat number]
  else
    UInt8.ofNat (number % 128 + 128) :: encodeVarint (number / 128)
termination_by number

/-- A truth value is the byte zero or one. -/
def encodeFlag (flag : Bool) : List UInt8 :=
  [if flag then 1 else 0]

/-- The bytes of a text in UTF-8, without its length. -/
def textBytes (text : String) : List UInt8 :=
  text.toByteArray.data.toList

/-- A text is its byte count followed by its bytes. -/
def encodeText (text : String) : List UInt8 :=
  encodeVarint text.utf8ByteSize ++ textBytes text

end ByteStream

end MaterialGraph
