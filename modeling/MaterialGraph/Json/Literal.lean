import MaterialGraph.Json.Value

/-!
# What literals denote

The literal of a string denotes characters once its escapes are resolved; it
denotes nothing if an escape is half of a surrogate pair.  A number is wanted
only as an unsigned integer of 64 bits without sign, fraction or exponent.
-/

namespace MaterialGraph

namespace Json

def hexDigit? (character : Char) : Option Nat :=
  if character.isDigit then
    some (character.toNat - '0'.toNat)
  else if 'a' ≤ character ∧ character ≤ 'f' then
    some (character.toNat - 'a'.toNat + 10)
  else if 'A' ≤ character ∧ character ≤ 'F' then
    some (character.toNat - 'A'.toNat + 10)
  else
    none

/-- The number spelled by four hexadecimal digits. -/
def codeUnit? (first second third fourth : Char) : Option Nat := do
  let first ← hexDigit? first
  let second ← hexDigit? second
  let third ← hexDigit? third
  let fourth ← hexDigit? fourth
  return ((first * 16 + second) * 16 + third) * 16 + fourth

def isHighSurrogate (unit : Nat) : Bool :=
  0xd800 ≤ unit && unit < 0xdc00

def isLowSurrogate (unit : Nat) : Bool :=
  0xdc00 ≤ unit && unit < 0xe000

/-- The character that a pair of surrogates denotes. -/
def surrogatePair (high low : Nat) : Char :=
  Char.ofNat (0x10000 + (high - 0xd800) * 0x400 + (low - 0xdc00))

/-- The character that a backslash and one further character denote. -/
def shortEscape? (character : Char) : Option Char :=
  match character with
  | '"' => some '"'
  | '\\' => some '\\'
  | '/' => some '/'
  | 'b' => some '\x08'
  | 'f' => some '\x0c'
  | 'n' => some '\n'
  | 'r' => some '\r'
  | 't' => some '\t'
  | _ => none

/-- The characters that the literal of a string denotes. -/
def unescape? : List Char → Option (List Char)
  | [] => some []
  | '\\' :: 'u' :: first :: second :: third :: fourth :: rest => do
      let unit ← codeUnit? first second third fourth
      if isHighSurrogate unit then
        match rest with
        | '\\' :: 'u' :: first :: second :: third :: fourth :: rest =>
            let low ← codeUnit? first second third fourth
            if isLowSurrogate low then
              let others ← unescape? rest
              return surrogatePair unit low :: others
            else
              none
        | _ => none
      else if isLowSurrogate unit then
        none
      else
        let others ← unescape? rest
        return Char.ofNat unit :: others
  | '\\' :: short :: rest => do
      let character ← shortEscape? short
      let others ← unescape? rest
      return character :: others
  | ['\\'] => none
  | character :: rest => do
      let others ← unescape? rest
      return character :: others

/-- The number that decimal digits spell. -/
def digitsValue (digits : List Char) : Nat :=
  digits.foldl
    (fun number digit => number * 10 + (digit.toNat - '0'.toNat)) 0

/-- The number spelled by decimal digits, without zeros in front. -/
def natural? (literal : List Char) : Option Nat :=
  match literal with
  | [] => none
  | ['0'] => some 0
  | '0' :: _ => none
  | _ =>
      if literal.all Char.isDigit then
        some (digitsValue literal)
      else
        none

/-- The 64-bit number that a literal spells. -/
def long? (literal : List Char) : Option UInt64 :=
  match natural? literal with
  | some number => if number < UInt64.size then some (.ofNat number) else none
  | none => none

namespace Value

def toLong? : Value → Option UInt64
  | number literal => long? literal
  | _ => none

def toBool? : Value → Option Bool
  | bool truth => some truth
  | _ => none

def toText? : Value → Option String
  | string literal => String.ofList <$> unescape? literal
  | _ => none

end Value

/-- The members of an object with their keys resolved. -/
def resolveKeys? (members : List (List Char × Value)) :
    Option (List (String × Value)) :=
  members.mapM fun member => do
    let key ← unescape? member.1
    return (String.ofList key, member.2)

end Json

end MaterialGraph
