/-!
# Tokens of JSON text

Text is read one character at a time.  A token keeps the characters that were
written: a number its literal, a string what stands between its quotes with
all escapes in place.  Escapes are checked for their form only; whether they
denote characters matters to those who ask for the string.
-/

namespace MaterialGraph

namespace Json

/-- A token of JSON text. -/
inductive Token
  | openBrace
  | closeBrace
  | openBracket
  | closeBracket
  | comma
  | colon
  | null
  | bool (truth : Bool)
  | number (literal : List Char)
  | string (literal : List Char)
  deriving DecidableEq, Repr

/-- How much of a number has been read. -/
inductive NumberStage
  | minus
  | zero
  | whole
  | point
  | fraction
  | mark
  | sign
  | exponent
  deriving DecidableEq, Repr

namespace NumberStage

/-- The stage after a further character, if it can belong to the number. -/
def next? (stage : NumberStage) (character : Char) : Option NumberStage :=
  let digit := character.isDigit
  let isMark := character = 'e' || character = 'E'
  match stage with
  | minus =>
      if character = '0' then some zero
      else if digit then some whole
      else none
  | zero =>
      if character = '.' then some point
      else if isMark then some mark
      else none
  | whole =>
      if digit then some whole
      else if character = '.' then some point
      else if isMark then some mark
      else none
  | point => if digit then some fraction else none
  | fraction =>
      if digit then some fraction
      else if isMark then some mark
      else none
  | mark =>
      if digit then some exponent
      else if character = '+' || character = '-' then some sign
      else none
  | sign => if digit then some exponent else none
  | exponent => if digit then some exponent else none

/-- Whether a number may end here. -/
def isFinal : NumberStage → Bool
  | zero => true
  | whole => true
  | fraction => true
  | exponent => true
  | _ => false

end NumberStage

/-- Where in an escape sequence a string has been left. -/
inductive EscapeStage
  | outside
  | backslash
  | code (digitsLeft : Nat)
  deriving DecidableEq, Repr

/-- What has been read of the current token.  Literals are reversed. -/
inductive Scan
  | between
  | word (token : Token) (expected : List Char)
  | number (read : List Char) (stage : NumberStage)
  | string (read : List Char) (stage : EscapeStage)
  deriving DecidableEq, Repr

/-- The tokens read so far, last one first, and the current one. -/
structure Lexer where
  tokens : List Token := []
  scan : Scan := .between
  deriving DecidableEq, Repr

namespace Lexer

/-- The characters that may stand between tokens. -/
def isBlank (character : Char) : Bool :=
  character = ' ' || character = '\t' || character = '\n' || character = '\r'

def isHexDigit (character : Char) : Bool :=
  character.isDigit || ('a' ≤ character && character ≤ 'f') ||
    ('A' ≤ character && character ≤ 'F')

/-- The characters that form an escape sequence with one backslash. -/
def isShortEscape (character : Char) : Bool :=
  "\"\\/bfnrt".toList.contains character

/-- Read a character that does not belong to a token begun before. -/
def start (tokens : List Token) (character : Char) : Option Lexer :=
  if isBlank character then
    some ⟨tokens, .between⟩
  else if character.isDigit then
    some ⟨tokens, .number [character]
      (if character = '0' then .zero else .whole)⟩
  else
    match character with
    | '\x7b' => some ⟨.openBrace :: tokens, .between⟩
    | '\x7d' => some ⟨.closeBrace :: tokens, .between⟩
    | '[' => some ⟨.openBracket :: tokens, .between⟩
    | ']' => some ⟨.closeBracket :: tokens, .between⟩
    | ',' => some ⟨.comma :: tokens, .between⟩
    | ':' => some ⟨.colon :: tokens, .between⟩
    | '"' => some ⟨tokens, .string [] .outside⟩
    | '-' => some ⟨tokens, .number ['-'] .minus⟩
    | 'n' => some ⟨tokens, .word .null "ull".toList⟩
    | 't' => some ⟨tokens, .word (.bool true) "rue".toList⟩
    | 'f' => some ⟨tokens, .word (.bool false) "alse".toList⟩
    | _ => none

/-- Read one character. -/
def step (lexer : Lexer) (character : Char) : Option Lexer :=
  let tokens := lexer.tokens
  match lexer.scan with
  | .between => start tokens character
  | .word token expected =>
      match expected with
      | [] => none
      | [last] =>
          if character = last then some ⟨token :: tokens, .between⟩ else none
      | next :: others =>
          if character = next then some ⟨tokens, .word token others⟩ else none
  | .number read stage =>
      match stage.next? character with
      | some stage => some ⟨tokens, .number (character :: read) stage⟩
      | none =>
          if stage.isFinal then
            start (.number read.reverse :: tokens) character
          else
            none
  | .string read stage =>
      match stage with
      | .outside =>
          if character = '"' then
            some ⟨.string read.reverse :: tokens, .between⟩
          else if character = '\\' then
            some ⟨tokens, .string (character :: read) .backslash⟩
          else if character.toNat < 0x20 then
            none
          else
            some ⟨tokens, .string (character :: read) .outside⟩
      | .backslash =>
          if character = 'u' then
            some ⟨tokens, .string (character :: read) (.code 4)⟩
          else if isShortEscape character then
            some ⟨tokens, .string (character :: read) .outside⟩
          else
            none
      | .code digitsLeft =>
          if isHexDigit character then
            some ⟨tokens, .string (character :: read)
              (if digitsLeft ≤ 1 then .outside else .code (digitsLeft - 1))⟩
          else
            none

/-- All tokens, if the text does not end within one. -/
def finish (lexer : Lexer) : Option (List Token) :=
  match lexer.scan with
  | .between => some lexer.tokens.reverse
  | .number read stage =>
      if stage.isFinal then
        some (Token.number read.reverse :: lexer.tokens).reverse
      else
        none
  | _ => none

end Lexer

/-- The tokens of a text. -/
def tokens? (text : List Char) : Option (List Token) :=
  (text.foldlM Lexer.step {}).bind Lexer.finish

end Json

end MaterialGraph
