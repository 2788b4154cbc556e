/-!
# Writing JSON text

Only flat objects are written: each member takes a line, indented by two
spaces.
-/

namespace MaterialGraph

namespace Json

/-- How a character is written in a string. -/
def escapeChar (character : Char) : List Char :=
  match character with
  | '"' => ['\\', '"']
  | '\\' => ['\\', '\\']
  | '\x08' => ['\\', 'b']
  | '\x0c' => ['\\', 'f']
  | '\n' => ['\\', 'n']
  | '\r' => ['\\', 'r']
  | '\t' => ['\\', 't']
  | _ =>
      if character.toNat < 0x20 then
        ['\\', 'u', '0', '0', Nat.digitChar (character.toNat / 16),
          Nat.digitChar (character.toNat % 16)]
      else
        [character]

/-- A string between quotes. -/
def quote (text : String) : String :=
  String.ofList ('"' :: text.toList.flatMap escapeChar ++ ['"'])

/-- An object whose values are already written. -/
def prettyObject (members : List (String × String)) : String :=
  if members.isEmpty then
    "\x7b\x7d"
  else
    "\x7b\n" ++
      String.intercalate ",\n"
        (members.map fun member => "  " ++ quote member.1 ++ ": " ++ member.2) ++
      "\n\x7d"

end Json

end MaterialGraph
