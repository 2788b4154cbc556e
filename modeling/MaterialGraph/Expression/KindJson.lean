import MaterialGraph.Expression.Kind
import MaterialGraph.Json.Literal
import MaterialGraph.Json.Printer

/-!
# Kinds of expressions as JSON

A kind is a string.  An object with that string as its only key, and null as
the value, is accepted too.
-/

namespace MaterialGraph

namespace ExpressionKind

def ofLiteral? (literal : List Char) : Option ExpressionKind :=
  (Json.unescape? literal).bind fun name => ofJsonName? (String.ofList name)

def ofJson? (text : String) : Option ExpressionKind :=
  match Json.Value.ofText? text with
  | some (.string literal) => ofLiteral? literal
  | some (.object [(key, .null)]) => ofLiteral? key
  | _ => none

def toJson (kind : ExpressionKind) : String :=
  Json.quote kind.jsonName

end ExpressionKind

end MaterialGraph
