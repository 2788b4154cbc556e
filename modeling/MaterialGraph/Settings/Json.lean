import MaterialGraph.Json.Diagnosis
import MaterialGraph.Json.Literal
import MaterialGraph.Json.Printer
import MaterialGraph.Settings

/-!
# Settings as JSON

Settings are an object with three known members, each of which may be left
out.  Members with other names are ignored, whatever their values.  A list of
up to three values in the order of the members is accepted too.
-/

namespace MaterialGraph

namespace Settings

open Json

/-- The value of a member that may occur once. -/
def member? {α : Type} (members : List (String × Json.Value)) (name : String)
    (read : Json.Value → Option α) (standard : α) : Option α :=
  match members.filter (·.1 == name) with
  | [] => some standard
  | [(_, value)] => read value
  | _ => none

/-- The value at a position of a list that may end before it. -/
def element? {α : Type} (elements : List Json.Value) (position : Nat)
    (read : Json.Value → Option α) (standard : α) : Option α :=
  match elements[position]? with
  | none => some standard
  | some value => read value

def ofMembers? (members : List (String × Json.Value)) : Option Settings := do
  let standard : Settings := {}
  let indentWidth ←
    member? members "indent_width" Json.Value.toLong? standard.indentWidth
  let defaultDepth ←
    member? members "default_dump_depth" Json.Value.toLong? standard.defaultDepth
  let showTypes ←
    member? members "show_types" Json.Value.toBool? standard.showTypes
  return ⟨indentWidth, defaultDepth, showTypes⟩

def ofElements? (elements : List Json.Value) : Option Settings := do
  let standard : Settings := {}
  if 3 < elements.length then none else
  let indentWidth ←
    element? elements 0 Json.Value.toLong? standard.indentWidth
  let defaultDepth ←
    element? elements 1 Json.Value.toLong? standard.defaultDepth
  let showTypes ← element? elements 2 Json.Value.toBool? standard.showTypes
  return ⟨indentWidth, defaultDepth, showTypes⟩

def ofValue? : Json.Value → Option Settings
  | .object members => (resolveKeys? members).bind ofMembers?
  | .array elements => ofElements? elements
  | _ => none

/-- The settings that a text spells. -/
def ofJson? (text : String) : Option Settings :=
  (Json.Value.ofText? text).bind ofValue?

/-- The form of settings, for texts that do not have it. -/
def form : Json.Reading Unit :=
  Json.Reading.record "FactoryConfig"
    [("indent_width", .size), ("default_dump_depth", .size),
      ("show_types", .truth)]

/-- The settings that a text spells, or the fault for which it is refused. -/
def read (text : String) : Except Json.Fault Settings :=
  match ofJson? text with
  | some settings => .ok settings
  | none => .error (Json.fault form text)

/-- All three members, one on each line. -/
def toJson (settings : Settings) : String :=
  prettyObject
    [("indent_width", toString settings.indentWidth.toNat),
      ("default_dump_depth", toString settings.defaultDepth.toNat),
      ("show_types", if settings.showTypes then "true" else "false")]

end Settings

end MaterialGraph
