import MaterialGraph.Json.Literal

/-!
# The grammar of JSON text

What a text has to look like in order to spell a value is told here without
tokens and without the steps of a reader.  Blanks may stand around values and
around keys.  A value keeps the literals of its numbers and strings; what the
literal of a string denotes is told apart from its form, because the escape of
half a surrogate pair is well formed and denotes nothing.
-/

namespace MaterialGraph

namespace Json

/-- What may stand around values and keys. -/
def IsBlanks (text : List Char) : Prop :=
  ∀ character ∈ text, character ∈ [' ', '\t', '\n', '\r']

section Numbers

/-- A text of one form, and then a text of another one. -/
def Joins (first second : List Char → Prop) (text : List Char) : Prop :=
  ∃ front back, text = front ++ back ∧ first front ∧ second back

def AreDigits (literal : List Char) : Prop :=
  ∀ digit ∈ literal, digit.isDigit

/-- One decimal digit or more. -/
def IsDigits (literal : List Char) : Prop :=
  literal ≠ [] ∧ AreDigits literal

/-- Zero alone, or digits of which the first one is not zero. -/
def IsWhole (literal : List Char) : Prop :=
  literal = ['0'] ∨ (IsDigits literal ∧ literal.head? ≠ some '0')

/-- Nothing, or a point and digits. -/
def IsFraction (literal : List Char) : Prop :=
  literal = [] ∨ ∃ digits, literal = '.' :: digits ∧ IsDigits digits

/-- Digits, perhaps with a sign. -/
def IsSigned : List Char → Prop :=
  Joins (· ∈ [[], ['+'], ['-']]) IsDigits

/-- Nothing, or a mark and digits with or without a sign. -/
def IsExponent (literal : List Char) : Prop :=
  literal = [] ∨ ∃ mark rest, literal = mark :: rest ∧ mark ∈ ['e', 'E'] ∧
    IsSigned rest

/-- Only a minus sign may stand in front of a number. -/
def IsNumber : List Char → Prop :=
  Joins (· ∈ [[], ['-']]) (Joins IsWhole (Joins IsFraction IsExponent))

end Numbers

section Strings

def IsHexDigit (character : Char) : Prop :=
  character.isDigit ∨ ('a' ≤ character ∧ character ≤ 'f') ∨
    ('A' ≤ character ∧ character ≤ 'F')

/-- Escapes of one character behind the backslash, and what they denote. -/
def shortEscapes : List (Char × Char) :=
  [('"', '"'), ('\\', '\\'), ('/', '/'), ('b', '\x08'), ('f', '\x0c'),
    ('n', '\n'), ('r', '\r'), ('t', '\t')]

/-- What may stand between the quotes of a string. -/
inductive IsLiteral : List Char → Prop
  | nil : IsLiteral []
  | plain {character : Char} {rest : List Char} :
      character ≠ '"' → character ≠ '\\' → 0x20 ≤ character.toNat →
      IsLiteral rest → IsLiteral (character :: rest)
  | short {character : Char} {rest : List Char} :
      character ∈ shortEscapes.map Prod.fst →
      IsLiteral rest → IsLiteral ('\\' :: character :: rest)
  | unit {digits rest : List Char} :
      digits.length = 4 → (∀ digit ∈ digits, IsHexDigit digit) →
      IsLiteral rest → IsLiteral ('\\' :: 'u' :: (digits ++ rest))

/-- The characters that a literal denotes.  A code unit outside the range of
surrogates denotes itself, and two surrogates denote one character. -/
inductive Denotes : List Char → List Char → Prop
  | nil : Denotes [] []
  | plain {character : Char} {rest text : List Char} :
      character ≠ '"' → character ≠ '\\' → 0x20 ≤ character.toNat →
      Denotes rest text → Denotes (character :: rest) (character :: text)
  | short {short character : Char} {rest text : List Char} :
      (short, character) ∈ shortEscapes →
      Denotes rest text → Denotes ('\\' :: short :: rest) (character :: text)
  | unit {first second third fourth : Char} {unit : Nat}
      {rest text : List Char} :
      codeUnit? first second third fourth = some unit →
      unit < 0xd800 ∨ 0xe000 ≤ unit → Denotes rest text →
      Denotes ('\\' :: 'u' :: first :: second :: third :: fourth :: rest)
        (Char.ofNat unit :: text)
  | pair {first second third fourth first' second' third' fourth' : Char}
      {high low : Nat} {rest text : List Char} :
      codeUnit? first second third fourth = some high →
      0xd800 ≤ high → high < 0xdc00 →
      codeUnit? first' second' third' fourth' = some low →
      0xdc00 ≤ low → low < 0xe000 → Denotes rest text →
      Denotes
        ('\\' :: 'u' :: first :: second :: third :: fourth ::
          '\\' :: 'u' :: first' :: second' :: third' :: fourth' :: rest)
        (Char.ofNat (0x10000 + (high - 0xd800) * 0x400 + (low - 0xdc00)) ::
          text)

end Strings

mutual

/-- The text of a value, from its first character to its last one. -/
inductive Spells : List Char → Value → Prop
  | null : Spells "null".toList .null
  | yes : Spells "true".toList (.bool true)
  | no : Spells "false".toList (.bool false)
  | number {literal : List Char} :
      IsNumber literal → Spells literal (.number literal)
  | string {literal : List Char} :
      IsLiteral literal → Spells ('"' :: (literal ++ ['"'])) (.string literal)
  | emptyArray {blanks : List Char} :
      IsBlanks blanks → Spells ('[' :: (blanks ++ [']'])) (.array [])
  | array {text more : List Char} {element : Value} {elements : List Value} :
      SpellsPadded text element → SpellsElements more elements →
      Spells ('[' :: (text ++ (more ++ [']']))) (.array (element :: elements))
  | emptyObject {blanks : List Char} :
      IsBlanks blanks → Spells ('\x7b' :: (blanks ++ ['\x7d'])) (.object [])
  | object {text more : List Char} {member : List Char × Value}
      {members : List (List Char × Value)} :
      SpellsMember text member → SpellsMembers more members →
      Spells ('\x7b' :: (text ++ (more ++ ['\x7d'])))
        (.object (member :: members))

/-- The text of a value with blanks around it. -/
inductive SpellsPadded : List Char → Value → Prop
  | pad {before text after : List Char} {value : Value} :
      IsBlanks before → Spells text value → IsBlanks after →
      SpellsPadded (before ++ (text ++ after)) value

/-- Further elements of a list, each with a comma in front of it. -/
inductive SpellsElements : List Char → List Value → Prop
  | nil : SpellsElements [] []
  | cons {text more : List Char} {element : Value} {elements : List Value} :
      SpellsPadded text element → SpellsElements more elements →
      SpellsElements (',' :: (text ++ more)) (element :: elements)

/-- A key, a colon and a value, with blanks around each of them. -/
inductive SpellsMember : List Char → List Char × Value → Prop
  | pair {before key after text : List Char} {value : Value} :
      IsBlanks before → IsLiteral key → IsBlanks after →
      SpellsPadded text value →
      SpellsMember (before ++ ('"' :: (key ++ '"' :: (after ++ ':' :: text))))
        (key, value)

/-- Further members of an object, each with a comma in front of it. -/
inductive SpellsMembers : List Char → List (List Char × Value) → Prop
  | nil : SpellsMembers [] []
  | cons {text more : List Char} {member : List Char × Value}
      {members : List (List Char × Value)} :
      SpellsMember text member → SpellsMembers more members →
      SpellsMembers (',' :: (text ++ more)) (member :: members)

end

end Json

end MaterialGraph
