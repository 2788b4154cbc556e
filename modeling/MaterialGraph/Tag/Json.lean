import MaterialGraph.Json.Diagnosis
import MaterialGraph.Json.Literal
import MaterialGraph.Json.Printer
import MaterialGraph.Tag

/-!
# Tags and their names as JSON

A tag is its number.  A table of names is an object whose keys spell numbers
in decimal digits, without escapes, and whose values are strings.  A table
that is read may give the null tag a name.
-/

namespace MaterialGraph

namespace Tag

def ofJson? (text : String) : Option Tag := do
  let value ← Json.Value.ofText? text
  let number ← value.toLong?
  return ⟨number⟩

def toJson (tag : Tag) : String :=
  toString tag.number.toNat

end Tag

namespace TagNames

/-- The names in the members of an object; of two names for a tag the later
one counts. -/
def ofMembers? : List (List Char × Json.Value) → TagNames → Option TagNames
  | [], names => some names
  | (key, value) :: rest, names => do
      let number ← Json.long? key
      let name ← value.toText?
      ofMembers? rest (names.put ⟨number⟩ name)

/-- The table that a text spells. -/
def ofJson? (text : String) : Option TagNames :=
  match Json.Value.ofText? text with
  | some (.object members) => ofMembers? members {}
  | _ => none

/-- The table that a text spells, or the fault for which it is refused. -/
def read (text : String) : Except Json.Fault TagNames :=
  match ofJson? text with
  | some names => .ok names
  | none => .error (Json.fault Json.Reading.table text)

/-- All names, each on a line. -/
def toJson (names : TagNames) : String :=
  Json.prettyObject
    (names.entries.map fun entry =>
      (toString entry.1.toNat, Json.quote entry.2))

end TagNames

end MaterialGraph
