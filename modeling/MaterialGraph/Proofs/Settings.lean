import MaterialGraph.Proofs.Json.Printing
import MaterialGraph.Settings.Json

/-!
# Reading settings

An object is read as settings exactly if each known member occurs at most once
and has a value in range.  What it gives is taken over, and everything else is
as if nothing had been given.  Members with other names may stand anywhere and
have any values.
-/

namespace MaterialGraph

open Json

namespace Settings

section Merging

variable {α : Type} {named : List (String × Json.Value)}

/-- A member that may occur once is found exactly if nothing or one value in
range is under its name. -/
theorem member?_eq_some_iff {name : String} {read : Json.Value → Option α}
    {write : α → Json.Value} {standard found : α}
    (reads : ∀ {value a}, read value = some a ↔ value = write a) :
    member? named name read standard = some found ↔
      ∃ given : Option α, valuesUnder name named = (given.map write).toList ∧
        found = given.getD standard := by
  unfold member? valuesUnder
  split
  case h_1 absent =>
    rw [absent]
    constructor
    · intro same
      cases same
      exact ⟨none, rfl, rfl⟩
    · rintro ⟨_ | given, values, rfl⟩
      · rfl
      · cases values
  case h_2 key value one =>
    rw [one, reads]
    constructor
    · rintro rfl
      exact ⟨some found, rfl, rfl⟩
    · rintro ⟨_ | given, values, rfl⟩
      · cases values
      · exact (List.cons.inj values).1
  case h_3 notNone notOne =>
    simp only [reduceCtorEq, false_iff, not_exists, not_and]
    rintro (_ | given) values -
    · exact notNone (List.map_eq_nil_iff.mp values)
    · obtain ⟨entry, one, -⟩ := List.map_eq_singleton_iff.mp values
      exact notOne entry.1 entry.2 one

/-- A number as it is written. -/
def writtenLong (number : UInt64) : Json.Value :=
  .number (Nat.toDigits 10 number.toNat)

theorem toLong?_eq_some_iff {value : Json.Value} {number : UInt64} :
    value.toLong? = some number ↔ value = writtenLong number := by
  cases value with
  | number literal => simp [Json.Value.toLong?, long?_eq_some_iff, writtenLong]
  | _ => exact ⟨nofun, nofun⟩

theorem toBool?_eq_some_iff {value : Json.Value} {truth : Bool} :
    value.toBool? = some truth ↔ value = .bool truth := by
  cases value with
  | bool truth => simp [Json.Value.toBool?]
  | _ => exact ⟨nofun, nofun⟩

/-- What of the settings an object gives. -/
structure Given where
  indentWidth : Option UInt64
  defaultDepth : Option UInt64
  showTypes : Option Bool

namespace Given

/-- Exactly what is given stands under the known names, once each. -/
structure IsIn (given : Given) (named : List (String × Json.Value)) : Prop where
  indentWidth : valuesUnder "indent_width" named =
    (given.indentWidth.map writtenLong).toList
  defaultDepth : valuesUnder "default_dump_depth" named =
    (given.defaultDepth.map writtenLong).toList
  showTypes : valuesUnder "show_types" named =
    (given.showTypes.map .bool).toList

/-- Settings with what is given.  Everything else is as it is by default. -/
def complete (given : Given) : Settings :=
  ⟨given.indentWidth.getD 4, given.defaultDepth.getD 0,
    given.showTypes.getD true⟩

variable {given : Given}

/-- Nothing that is given stands under a known name twice. -/
theorem IsIn.length_le_one (isIn : given.IsIn named) {name : String}
    (known : name ∈ ["indent_width", "default_dump_depth", "show_types"]) :
    (valuesUnder name named).length ≤ 1 := by
  simp only [List.mem_cons, List.not_mem_nil, or_false] at known
  rcases known with rfl | rfl | rfl
  · rw [isIn.indentWidth]
    exact Option.length_toList_le
  · rw [isIn.defaultDepth]
    exact Option.length_toList_le
  · rw [isIn.showTypes]
    exact Option.length_toList_le

end Given

theorem ofMembers?_eq_some_iff {settings : Settings} :
    ofMembers? named = some settings ↔
      ∃ given : Given, given.IsIn named ∧ settings = given.complete := by
  unfold ofMembers?
  simp only [Option.bind_eq_bind, Option.bind_eq_some_iff,
    member?_eq_some_iff toLong?_eq_some_iff,
    member?_eq_some_iff toBool?_eq_some_iff]
  constructor
  · rintro ⟨_, ⟨indentWidth, width, rfl⟩, _, ⟨defaultDepth, depth, rfl⟩, _,
      ⟨showTypes, types, rfl⟩, same⟩
    cases same
    exact ⟨⟨indentWidth, defaultDepth, showTypes⟩, ⟨width, depth, types⟩, rfl⟩
  · rintro ⟨given, ⟨width, depth, types⟩, rfl⟩
    exact ⟨_, ⟨_, width, rfl⟩, _, ⟨_, depth, rfl⟩, _, ⟨_, types, rfl⟩, rfl⟩

end Merging

theorem read_eq_ok_iff {text : String} {settings : Settings} :
    read text = .ok settings ↔ ofJson? text = some settings := by
  unfold read
  cases ofJson? text <;> simp

section Objects

variable {text : String} {members : List (List Char × Json.Value)}
  (spells : SpellsPadded text.toList (.object members))

include spells

/-- An object is read exactly if what it gives is in range. -/
theorem read_eq_ok_iff_of_spells {settings : Settings} :
    read text = .ok settings ↔
      ∃ named given, Names members named ∧ Given.IsIn given named ∧
        settings = given.complete := by
  rw [read_eq_ok_iff, ofJson?, Json.Value.ofText?_eq_some_iff.mpr spells,
    Option.bind_some, ofValue?]
  simp only [Option.bind_eq_some_iff,
    resolveKeys?_eq_some_iff spells.isLiteral, ofMembers?_eq_some_iff,
    exists_and_left]

/-- An object that repeats a known member is refused. -/
theorem exists_read_eq_error {name : String}
    (known : name ∈ ["indent_width", "default_dump_depth", "show_types"])
    {first second : List Char × Json.Value}
    (both : [first, second].Sublist members)
    (firstName : Denotes first.1 name.toList)
    (secondName : Denotes second.1 name.toList) :
    ∃ fault, read text = .error fault := by
  cases result : read text with
  | error fault => exact ⟨fault, rfl⟩
  | ok settings =>
      obtain ⟨named, given, names, isIn, -⟩ :=
        (read_eq_ok_iff_of_spells spells).mp result
      have two := two_le_length_valuesUnder names both firstName secondName
      have one := isIn.length_le_one known
      omega

end Objects

section Printed

theorem spells_writtenLong (number : UInt64) :
    Spells (toString number.toNat).toList (writtenLong number) := by
  rw [Nat.toString_eq_repr, Nat.toList_repr]
  exact .number (isNumber_toDigits number.toNat)

theorem spells_bool (truth : Bool) :
    Spells (if truth then "true" else "false").toList (.bool truth) := by
  cases truth with
  | true => exact .yes
  | false => exact .no

/-- The members that are printed, as texts and as values. -/
def printedMembers (settings : Settings) :
    List (String × String × Json.Value) :=
  [("indent_width", toString settings.indentWidth.toNat,
      writtenLong settings.indentWidth),
    ("default_dump_depth", toString settings.defaultDepth.toNat,
      writtenLong settings.defaultDepth),
    ("show_types", if settings.showTypes then "true" else "false",
      .bool settings.showTypes)]

theorem spells_toJson (settings : Settings) :
    Spells settings.toJson.toList
      (.object (settings.printedMembers.map fun member =>
        (written member.1, member.2.2))) := by
  have each : ∀ member ∈ settings.printedMembers,
      Spells member.2.1.toList member.2.2 := by
    simp only [printedMembers, List.forall_mem_cons, List.not_mem_nil]
    exact ⟨spells_writtenLong _, spells_writtenLong _, spells_bool _, nofun⟩
  have printed : settings.toJson = prettyObject
      (settings.printedMembers.map fun member => (member.1, member.2.1)) := rfl
  rw [printed]
  exact spells_prettyObject each

/-- Printed settings are read back. -/
theorem read_toJson (settings : Settings) :
    read settings.toJson = .ok settings := by
  rw [read_eq_ok_iff_of_spells settings.spells_toJson.padded]
  refine ⟨settings.printedMembers.map fun member => (member.1, member.2.2),
    ⟨some settings.indentWidth, some settings.defaultDepth,
      some settings.showTypes⟩, ?_, ?_, rfl⟩
  · simp only [Names, List.forall₂_map_left_iff, List.forall₂_map_right_iff]
    exact List.forall₂_same.mpr fun member _ =>
      ⟨denotes_written member.1, rfl⟩
  · exact ⟨rfl, rfl, rfl⟩

end Printed

/-- Settings are read back from what is printed for them.  An object is read
exactly if every key denotes a name and every known member occurs at most once
and with a value in range, and then the settings are those that it gives, with
the defaults for all others; and an object in which a known name occurs twice is
refused, whatever else it holds. -/
theorem read_exact :
    (∀ settings : Settings, read settings.toJson = .ok settings) ∧
    ∀ (text : String) (members : List (List Char × Json.Value)),
      SpellsPadded text.toList (.object members) →
        (∀ settings, read text = .ok settings ↔
          ∃ named given, Names members named ∧ Given.IsIn given named ∧
            settings = given.complete) ∧
        ∀ name ∈ ["indent_width", "default_dump_depth", "show_types"],
          ∀ first second : List Char × Json.Value,
            [first, second].Sublist members →
            Denotes first.1 name.toList → Denotes second.1 name.toList →
              ∃ fault, read text = .error fault := by
  refine ⟨read_toJson, ?_⟩
  intro text members spells
  refine ⟨fun settings => read_eq_ok_iff_of_spells spells, ?_⟩
  intro name known first second both firstName secondName
  exact exists_read_eq_error spells known both firstName secondName

/-- An unknown member may stand between known ones, and a known one may not be
repeated even if its value is not looked at. -/
theorem read_exact_mixed :
    read "\x7b\"show_types\": false, \"note\": [[]], \"indent_width\": 2\x7d" =
        .ok ⟨2, 0, false⟩ ∧
      ∃ fault, read "\x7b\"show_types\": true, \"show_types\": null\x7d" =
        .error fault := by
  have spelled : Json.Value.ofText?
      "\x7b\"show_types\": false, \"note\": [[]], \"indent_width\": 2\x7d" =
        some (.object
          [("show_types".toList, .bool false),
            ("note".toList, .array [.array []]),
            ("indent_width".toList, .number ['2'])]) := by
    rfl
  have repeated : Json.Value.ofText?
      "\x7b\"show_types\": true, \"show_types\": null\x7d" =
        some (.object
          [("show_types".toList, .bool true), ("show_types".toList, .null)]) := by
    rfl
  have spells := Json.Value.ofText?_eq_some_iff.mp spelled
  have names : Names _ _ := (resolveKeys?_eq_some_iff spells.isLiteral).mp rfl
  have key : Denotes "show_types".toList "show_types".toList :=
    denotes_written "show_types"
  constructor
  · exact ((read_exact.2 _ _ spells).1 _).mpr
      ⟨_, ⟨some 2, none, some false⟩, names, ⟨rfl, rfl, rfl⟩, rfl⟩
  · have spells := Json.Value.ofText?_eq_some_iff.mp repeated
    exact (read_exact.2 _ _ spells).2 "show_types" (by decide) _ _ (.refl _)
      key key

end Settings

end MaterialGraph
