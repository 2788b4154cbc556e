/-!
# Kinds of expressions

The number of a kind is its byte in a stream and its place in the order of
expressions.
-/

namespace MaterialGraph

/-- The five kinds of expressions, in their order. -/
inductive ExpressionKind
  | constant
  | call
  | parameter
  | directCall
  | temporary
  deriving DecidableEq, Repr

namespace ExpressionKind

def code : ExpressionKind → UInt8
  | constant => 0
  | call => 1
  | parameter => 2
  | directCall => 3
  | temporary => 4

def ofCode? (code : UInt8) : Option ExpressionKind :=
  match code.toNat with
  | 0 => some constant
  | 1 => some call
  | 2 => some parameter
  | 3 => some directCall
  | 4 => some temporary
  | _ => none

/-- The word that opens a line of a dump. -/
def text : ExpressionKind → String
  | constant => "constant"
  | call => "call"
  | parameter => "parameter"
  | directCall => "direct_call"
  | temporary => "temporary"

/-- The name of a kind in JSON. -/
def jsonName : ExpressionKind → String
  | constant => "Constant"
  | call => "Call"
  | parameter => "Parameter"
  | directCall => "DirectCall"
  | temporary => "Temporary"

def all : List ExpressionKind :=
  [constant, call, parameter, directCall, temporary]

def ofJsonName? (name : String) : Option ExpressionKind :=
  all.find? fun kind => kind.jsonName == name

instance : Ord ExpressionKind :=
  ⟨fun left right => compare left.code right.code⟩

end ExpressionKind

end MaterialGraph
