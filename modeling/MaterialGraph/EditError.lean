/-!
# Reasons why an edit is refused

Building and changing expressions can fail in four ways.  A refused edit
leaves everything as it was.
-/

namespace MaterialGraph

/-- Why an object cannot be built or changed as requested. -/
inductive EditError
  | invalidTag
  | indexOutOfRange (index size : Nat)
  | nameNotFound (name : String)
  | duplicateName (name : String)
  deriving DecidableEq, Repr

namespace EditError

/-- The sentence reported for a refused edit. -/
def message : EditError → String
  | invalidTag => "invalid tag: the null tag cannot be referenced"
  | indexOutOfRange index size =>
      "index " ++ toString index ++ " out of range for container of size " ++
        toString size
  | nameNotFound name => "no entry named '" ++ name ++ "'"
  | duplicateName name => "an entry named '" ++ name ++ "' already exists"

/-- The status code of a refused edit: one for bad tags, one for containers. -/
def status : EditError → Int
  | invalidTag => -1
  | indexOutOfRange .. => -2
  | nameNotFound _ => -2
  | duplicateName _ => -2

/-- The status code of an edit that was carried out. -/
def successStatus : Int := 0

end EditError

end MaterialGraph
