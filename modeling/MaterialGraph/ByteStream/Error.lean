/-!
# Reasons why a byte stream is refused

Each constructor is one cause.  The wording shown to a user is fixed by
`DecodeError.message`; nothing else in the library depends on it.
-/

namespace MaterialGraph

/-- Why a sequence of bytes does not denote the requested object. -/
inductive DecodeError
  | unexpectedEnd
  | overflow
  | invalidText
  | invalidKind (kind : UInt8)
  | invalidTag
  | duplicateName (name : String)
  | invalidValue (reason : String)
  | nestingTooDeep (limit : Nat)
  | badHeader
  | unsupportedVersion (version : UInt8)
  | trailingBytes (remaining : Nat)
  deriving DecidableEq, Repr

namespace DecodeError

/-- A truth value must be stored as the byte zero or one. -/
def badFlag (byte : UInt8) : DecodeError :=
  .invalidValue ("boolean byte " ++ toString byte.toNat)

/-- Only the codes of the basic types name a type. -/
def unknownType (code : UInt8) : DecodeError :=
  .invalidValue ("unknown type code " ++ toString code.toNat)

/-- Opaque types, and codes that name no type, have no values. -/
def noValues (code : UInt8) : DecodeError :=
  .invalidValue ("no values of type code " ++ toString code.toNat)

/-- The sentence reported for a refused stream. -/
def message : DecodeError → String
  | .unexpectedEnd => "unexpected end of stream"
  | .overflow => "integer overflow while decoding"
  | .invalidText => "invalid utf-8 in string"
  | .invalidKind kind =>
      "invalid expression kind discriminator: " ++ toString kind.toNat
  | .invalidTag => "null tag found in stream"
  | .duplicateName name => "duplicate entry name '" ++ name ++ "' in stream"
  | .invalidValue reason => "invalid value encoding: " ++ reason
  | .nestingTooDeep limit =>
      "expressions nested deeper than " ++ toString limit ++ " levels"
  | .badHeader => "missing or corrupt file header"
  | .unsupportedVersion version =>
      "unsupported format version " ++ toString version.toNat
  | .trailingBytes remaining =>
      toString remaining ++ " trailing bytes after decoded object"

end DecodeError

end MaterialGraph
