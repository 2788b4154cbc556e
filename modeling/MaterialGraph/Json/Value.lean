import MaterialGraph.Json.Token

/-!
# Values of JSON text

A value keeps the literals of its numbers and strings, and all members of its
objects in order.  Tokens are read one at a time; the containers that are
still open form a stack, so that values may be nested to any depth.
-/

namespace MaterialGraph

namespace Json

/-- A value with unresolved literals. -/
inductive Value
  | null
  | bool (truth : Bool)
  | number (literal : List Char)
  | string (literal : List Char)
  | array (elements : List Value)
  | object (members : List (List Char × Value))

/-- An open container that waits for a value.  What precedes the value is
reversed. -/
inductive Frame
  | element (before : List Value)
  | member (before : List (List Char × Value)) (key : List Char)

/-- What may follow, and the open containers from the innermost outwards. -/
inductive Build
  | value (frames : List Frame)
  | firstElement (frames : List Frame)
  | afterElement (elements : List Value) (frames : List Frame)
  | firstMember (frames : List Frame)
  | nextMember (members : List (List Char × Value)) (frames : List Frame)
  | colon (members : List (List Char × Value)) (key : List Char)
      (frames : List Frame)
  | afterMember (members : List (List Char × Value)) (frames : List Frame)
  | complete (value : Value)

namespace Build

/-- Hand a finished value to the innermost open container. -/
def receive (finished : Value) : List Frame → Build
  | [] => complete finished
  | .element before :: frames => afterElement (finished :: before) frames
  | .member before key :: frames =>
      afterMember ((key, finished) :: before) frames

/-- Read the first token of a value. -/
def start (token : Token) (frames : List Frame) : Option Build :=
  match token with
  | .null => some (receive .null frames)
  | .bool truth => some (receive (.bool truth) frames)
  | .number literal => some (receive (.number literal) frames)
  | .string literal => some (receive (.string literal) frames)
  | .openBracket => some (firstElement frames)
  | .openBrace => some (firstMember frames)
  | _ => none

/-- Read one token. -/
def step (build : Build) (token : Token) : Option Build :=
  match build, token with
  | value frames, token => start token frames
  | firstElement frames, .closeBracket => some (receive (.array []) frames)
  | firstElement frames, token => start token (.element [] :: frames)
  | afterElement elements frames, .comma =>
      some (value (.element elements :: frames))
  | afterElement elements frames, .closeBracket =>
      some (receive (.array elements.reverse) frames)
  | firstMember frames, .closeBrace => some (receive (.object []) frames)
  | firstMember frames, .string key => some (colon [] key frames)
  | nextMember members frames, .string key => some (colon members key frames)
  | colon members key frames, .colon =>
      some (value (.member members key :: frames))
  | afterMember members frames, .comma => some (nextMember members frames)
  | afterMember members frames, .closeBrace =>
      some (receive (.object members.reverse) frames)
  | _, _ => none

end Build

namespace Value

/-- The value that a sequence of tokens spells. -/
def ofTokens? (tokens : List Token) : Option Value :=
  match tokens.foldlM Build.step (.value []) with
  | some (.complete value) => some value
  | _ => none

/-- The value that a text spells. -/
def ofText? (text : String) : Option Value :=
  (tokens? text.toList).bind ofTokens?

end Value

end Json

end MaterialGraph
