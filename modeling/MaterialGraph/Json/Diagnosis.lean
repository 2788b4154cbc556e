import MaterialGraph.Json.Fault

/-!
# The first fault of a text

A text that is not what is wanted is read from its start until a fault shows.
A table has numbers as keys and strings as values.  A record has known members
of known types; what other members hold is only checked for its form.
-/

namespace MaterialGraph

namespace Json

/-- What is left of a text, and how many bytes have been read before. -/
structure Cursor where
  rest : List Char
  read : Nat
  deriving DecidableEq, Repr

/-- A step of reading, which may end with a flaw after some bytes. -/
abbrev Reading := StateT Cursor (Except (Flaw × Nat))

namespace Reading

def byteCount : List Char → Nat
  | [] => 0
  | character :: rest => character.utf8Size + byteCount rest

/-- Read some characters, whatever they are. -/
def advance (count : Nat) : Reading Unit :=
  modify fun cursor =>
    ⟨cursor.rest.drop count, cursor.read + byteCount (cursor.rest.take count)⟩

/-- The next character. -/
def peek? : Reading (Option Char) :=
  return (← get).rest.head?

/-- The next character that is not blank. -/
def token? : Reading (Option Char) := do
  advance ((← get).rest.takeWhile Lexer.isBlank).length
  peek?

/-- A flaw of what has been read. -/
def fail {α : Type} (flaw : Flaw) : Reading α := do
  throw (flaw, (← get).read)

/-- A flaw of the next character, or of the end of the text. -/
def refuse {α : Type} (flaw : Flaw) : Reading α := do
  match ← peek? with
  | some _ => throw (flaw, (← get).read + 1)
  | none => throw (flaw, (← get).read)

/-- Read a character of some kind. -/
def take (accepts : Char → Bool) (ending other : Flaw) : Reading Char := do
  match ← peek? with
  | none => fail ending
  | some character =>
      if accepts character then
        advance 1
        return character
      else
        refuse other

def word (letters : String) : Reading Unit :=
  letters.toList.forM fun letter => do
    let _ ← take (· == letter) (.ends .value) .noWord

/-- The characters that continue a number, and how much of it is read then. -/
def spanNumber (stage : NumberStage) : List Char → List Char × NumberStage
  | [] => ([], stage)
  | character :: rest =>
      match stage.next? character with
      | some next =>
          let (literal, last) := spanNumber next rest
          (character :: literal, last)
      | none => ([], stage)

/-- The literal of a number that starts here.  The end of the text within a
number is a flaw of the number if nobody wants it. -/
def number (wanted : Bool) : Reading (List Char) := do
  let sign := if (← peek?) == some '-' then ['-'] else []
  advance sign.length
  let (digits, stage) := spanNumber .minus (← get).rest
  advance digits.length
  match ← peek? with
  | none =>
      unless stage.isFinal do
        fail (if wanted then .ends .value else .badNumber)
  | some next =>
      if !stage.isFinal || (stage == .zero && next.isDigit) then
        refuse .badNumber
  return sign ++ digits

/-- The number that four hexadecimal digits spell. -/
def hexCode : Reading Nat := do
  let cursor ← get
  match cursor.rest with
  | first :: second :: third :: fourth :: _ =>
      match codeUnit? first second third fourth with
      | some unit =>
          advance 4
          return unit
      | none => pure ()
  | _ => pure ()
  let left := byteCount cursor.rest
  if left < 4 then
    throw (.ends .string, cursor.read + left)
  else
    throw (.badEscape, cursor.read + 4)

/-- Read what follows a backslash.  If the string is wanted, its escapes have
to denote characters. -/
def escape (wanted : Bool) : Reading Unit := do
  let short ← take (fun next => next == 'u' || Lexer.isShortEscape next)
    (.ends .string) .badEscape
  if short == 'u' then
    let unit ← hexCode
    if wanted && isLowSurrogate unit then
      fail .loneSurrogate
    if wanted && isHighSurrogate unit then
      let _ ← take (· == '\\') (.ends .string) .brokenPair
      let _ ← take (· == 'u') (.ends .string) .brokenPair
      unless isLowSurrogate (← hexCode) do
        fail .loneSurrogate

/-- Read a string up to its closing quote, in at most the given number of
steps. -/
def closeString (wanted : Bool) : (steps : Nat) → Reading Unit
  | 0 => pure ()
  | steps + 1 => do
      let character ← take (fun next => 0x20 ≤ next.toNat) (.ends .string)
        .control
      if character == '"' then
        return ()
      if character == '\\' then
        escape wanted
      closeString wanted steps

/-- The string that starts here. -/
def string (wanted : Bool) : Reading String := do
  advance 1
  let before := (← get).rest
  closeString wanted (before.length + 1)
  let after := (← get).rest
  let literal := before.take (before.length - after.length - 1)
  return String.ofList ((unescape? literal).getD [])

/-- The value that starts here; of a list or an object nothing is read. -/
def scalar (wanted : Bool) : Reading Found := do
  match ← token? with
  | none => fail (.ends .value)
  | some '[' => return .container .list
  | some '\x7b' => return .container .object
  | some '"' => return .text (← string wanted)
  | some 'n' => word "null"; return .null
  | some 't' => word "true"; return .truth true
  | some 'f' => word "false"; return .truth false
  | some next =>
      unless next == '-' || next.isDigit do
        refuse .noValue
      match Found.ofNumber? (← number wanted) with
      | some found => return found
      | none => if wanted then fail .hugeNumber else return .null

/-- Read a value of which something is wanted. -/
def want (wanted : Wanted) : Reading Unit := do
  match wanted.flaw? (← scalar true) with
  | some flaw => fail flaw
  | none => pure ()

def colon : Reading Unit := do
  let _ ← token?
  let _ ← take (· == ':') (.ends (.inside .object)) .noColon

def comma (container : Container) : Reading Unit := do
  let _ ← take (· == ',') (.ends (.inside container)) (.noSeparator container)

/-- The character that ends a container. -/
def closing : Container → Char
  | .list => ']'
  | .object => '\x7d'

/-- Skip the rest of nested containers, in at most the given number of steps.
The innermost one comes first. -/
def skipInside (isFirst : Bool) (containers : List Container) :
    (steps : Nat) → Reading Unit
  | 0 => pure ()
  | steps + 1 => do
      match containers with
      | [] => return ()
      | container :: outer =>
          match ← token? with
          | none => fail (.ends (.inside container))
          | some next =>
              if next == closing container then
                advance 1
                skipInside false outer steps
              else
                unless isFirst do
                  comma container
                if container = .object then
                  match ← token? with
                  | none => fail (.ends (.inside .object))
                  | some '"' => let _ ← string false
                  | some _ => refuse .keyNotText
                  colon
                match ← scalar false with
                | .container inner =>
                    advance 1
                    skipInside true (inner :: containers) steps
                | _ => skipInside false containers steps

/-- Skip a value that nobody wants. -/
def skip : Reading Unit := do
  match ← scalar false with
  | .container container =>
      advance 1
      skipInside true [container] (← get).rest.length.succ
  | _ => pure ()

/-- Read the members of an object up to its end, in at most the given number
of steps.  Each member is told the keys that have been noted before. -/
def members (member : List String → Reading (List String)) (isFirst : Bool)
    (keys : List String) : (steps : Nat) → Reading Unit
  | 0 => pure ()
  | steps + 1 => do
      match ← token? with
      | none => fail (.ends (.inside .object))
      | some '\x7d' => advance 1
      | some _ =>
          unless isFirst do
            comma .object
          match ← token? with
          | none => fail (.ends .value)
          | some '"' => members member false (← member keys) steps
          | some '\x7d' => refuse .trailingComma
          | some _ => refuse .keyNotText

/-- Read a key that spells a number, and a string. -/
def tableMember : Reading Unit := do
  advance 1
  match ← peek? with
  | some next =>
      unless next == '-' || next.isDigit do
        fail .keyNotNumber
  | none => fail .keyNotNumber
  want .number
  let _ ← take (· == '"') .noQuote .noQuote
  colon
  want .text

/-- Read a member of a record.  Known keys are noted and may not be
repeated. -/
def recordMember (fields : List (String × Wanted)) (keys : List String) :
    Reading (List String) := do
  let key ← string true
  match fields.lookup key with
  | none =>
      colon
      skip
      return keys
  | some wanted =>
      if keys.contains key then
        let _ ← token?
        fail (.repeated key)
      colon
      want wanted
      return key :: keys

/-- Read the values of a record up to the end of their list. -/
def recordValues (isFirst : Bool) : List (String × Wanted) → Reading Unit
  | [] => do
      match ← token? with
      | none => fail (.ends (.inside .list))
      | some ']' => advance 1
      | some ',' =>
          advance 1
          match ← token? with
          | some ']' => refuse .trailingComma
          | _ => refuse .trailingText
      | some _ => refuse .trailingText
  | (_, wanted) :: others => do
      match ← token? with
      | none => fail (.ends (.inside .list))
      | some ']' => advance 1
      | some _ =>
          unless isFirst do
            comma .list
            if (← token?) == some ']' then
              refuse .trailingComma
          want wanted
          recordValues false others

def table : Reading Unit := do
  want .table
  advance 1
  members (fun keys => do tableMember; return keys) true []
    (← get).rest.length.succ

def record (title : String) (fields : List (String × Wanted)) :
    Reading Unit := do
  want (.record title)
  let opening ← peek?
  advance 1
  if opening == some '[' then
    recordValues true fields
  else
    members (recordMember fields) true [] (← get).rest.length.succ

/-- Read the end of the text. -/
def finish : Reading Unit := do
  if (← token?).isSome then
    refuse .trailingText

end Reading

/-- The flaw of a text that is wanted in some form, and how many bytes have
been read when it shows. -/
def flaw? (form : Reading Unit) (text : String) : Option (Flaw × Nat) :=
  match (do form; Reading.finish).run ⟨text.toList, 0⟩ with
  | .ok _ => none
  | .error found => some found

/-- The fault for which a text is refused.  A text in which no flaw shows is
faulted at its end. -/
def fault (form : Reading Unit) (text : String) : Fault :=
  let bytes := text.toUTF8.toList
  let (flaw, read) := (flaw? form text).getD (.ends .value, bytes.length)
  .after flaw (bytes.take read)

end Json

end MaterialGraph
