import MaterialGraph.Text.Concealed

/-!
# Quoted text

Text is shown between double quotes.  The quote and the backslash are preceded
by a backslash, four control characters have short names, and every other
concealed character is shown by its code point in lower-case hexadecimal
digits.  All other characters stand for themselves.
-/

namespace MaterialGraph

namespace Quoted

/-- The code point in hexadecimal digits between braces. -/
def escapeCode (character : Char) : List Char :=
  ['\\', 'u', '\x7b'] ++ Nat.toDigits 16 character.toNat ++ ['\x7d']

/-- How one character is shown inside the quotes. -/
def showChar (character : Char) : List Char :=
  match character with
  | '\x00' => ['\\', '0']
  | '\t' => ['\\', 't']
  | '\n' => ['\\', 'n']
  | '\r' => ['\\', 'r']
  | '"' => ['\\', '"']
  | '\\' => ['\\', '\\']
  | _ =>
      if Concealed.isConcealed character then
        escapeCode character
      else
        [character]

/-- The text between quotes. -/
def quote (text : String) : String :=
  String.ofList ('"' :: text.toList.flatMap showChar ++ ['"'])

end Quoted

end MaterialGraph
