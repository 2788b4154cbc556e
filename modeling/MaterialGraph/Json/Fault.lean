import MaterialGraph.Json.Found

/-!
# Faults of JSON text

A text that is refused has a fault: something is wrong at some place of it.
The place is a line, counted from one, and the number of bytes of that line
that have been read when the fault shows.
-/

namespace MaterialGraph

namespace Json

/-- What a text may end within. -/
inductive Part
  | value
  | string
  | inside (container : Container)
  deriving DecidableEq, Repr

namespace Part

def noun : Part → String
  | value => "a value"
  | string => "a string"
  | inside .list => "a list"
  | inside .object => "an object"

end Part

/-- What is wanted at a place of a text.  A record is an object with known
members, or the list of their values. -/
inductive Wanted
  | size
  | number
  | truth
  | text
  | table
  | record (title : String)
  deriving DecidableEq, Repr

namespace Wanted

def noun : Wanted → String
  | size => "usize"
  | number => "u64"
  | truth => "a boolean"
  | text => "a string"
  | table => "a map"
  | record title => "struct " ++ title

end Wanted

/-- What is wrong with a text. -/
inductive Flaw
  | ends (part : Part)
  | noValue
  | noWord
  | noColon
  | noQuote
  | noSeparator (container : Container)
  | badEscape
  | badNumber
  | hugeNumber
  | control
  | loneSurrogate
  | brokenPair
  | keyNotText
  | keyNotNumber
  | repeated (key : String)
  | trailingComma
  | trailingText
  | wrongType (found : Found) (wanted : Wanted)
  | wrongValue (found : Found) (wanted : Wanted)
  deriving DecidableEq, Repr

namespace Flaw

def message : Flaw → String
  | ends part => "EOF while parsing " ++ part.noun
  | noValue => "expected value"
  | noWord => "expected ident"
  | noColon => "expected `:`"
  | noQuote => "expected `\"`"
  | noSeparator .list => "expected `,` or `]`"
  | noSeparator .object => "expected `,` or `\x7d`"
  | badEscape => "invalid escape"
  | badNumber => "invalid number"
  | hugeNumber => "number out of range"
  | control =>
      "control character (\\u0000-\\u001F) found while parsing a string"
  | loneSurrogate => "lone leading surrogate in hex escape"
  | brokenPair => "unexpected end of hex escape"
  | keyNotText => "key must be a string"
  | keyNotNumber => "invalid value: expected key to be a number in quotes"
  | repeated key => "duplicate field `" ++ key ++ "`"
  | trailingComma => "trailing comma"
  | trailingText => "trailing characters"
  | wrongType found wanted =>
      "invalid type: " ++ found.noun ++ ", expected " ++ wanted.noun
  | wrongValue found wanted =>
      "invalid value: " ++ found.noun ++ ", expected " ++ wanted.noun

end Flaw

namespace Wanted

/-- What is wrong if something is found where something is wanted. -/
def flaw? (wanted : Wanted) (found : Found) : Option Flaw :=
  match wanted, found with
  | size, .integer value | number, .integer value =>
      if value < 0 then some (.wrongValue found wanted) else none
  | truth, .truth _ => none
  | text, .text _ => none
  | table, .container .object => none
  | record _, .container _ => none
  | _, _ => some (.wrongType found wanted)

end Wanted

/-- Something wrong at a place of a text. -/
structure Fault where
  flaw : Flaw
  line : Nat
  column : Nat
  deriving DecidableEq, Repr

namespace Fault

/-- Something wrong that shows when some bytes of a text have been read. -/
def after (flaw : Flaw) (bytes : List UInt8) : Fault :=
  let newline : UInt8 := 0x0a
  ⟨flaw, bytes.count newline + 1,
    (bytes.reverse.takeWhile (· != newline)).length⟩

def message (fault : Fault) : String :=
  fault.flaw.message ++ " at line " ++ toString fault.line ++ " column " ++
    toString fault.column

end Fault

end Json

end MaterialGraph
