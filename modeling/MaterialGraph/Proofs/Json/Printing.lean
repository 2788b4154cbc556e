import MaterialGraph.Proofs.Json.Denoting
import MaterialGraph.Proofs.Json.Reading

/-!
# Reading back what is printed

A printed object spells the object with the same members in the same order,
provided that what is printed for the values spells them.  The literals of its
keys are what was written for them.
-/

namespace MaterialGraph

namespace Json

section Strings

/-- What is written for the characters of a string. -/
def written (text : String) : List Char :=
  text.toList.flatMap escapeChar

theorem isHexDigit_of_hexDigit? {character : Char} {value : Nat}
    (denotes : hexDigit? character = some value) : IsHexDigit character := by
  unfold hexDigit? at denotes
  split at denotes
  · rename_i digit
    exact .inl digit
  · split at denotes
    · rename_i lower
      exact .inr (.inl lower)
    · split at denotes
      · rename_i upper
        exact .inr (.inr upper)
      · cases denotes

/-- What is written for a character may stand in front of any literal. -/
theorem isLiteral_escapeChar_append (character : Char) {rest : List Char}
    (form : IsLiteral rest) : IsLiteral (escapeChar character ++ rest) := by
  rcases escapeChar_cases character with
    ⟨short, written, denotes, -⟩ |
    ⟨high, low, written, highDigit, lowDigit, -⟩ |
    ⟨written, notQuote, notBackslash, printable⟩
  · rw [written]
    exact .short (List.mem_map_of_mem (mem_shortEscapes_iff.mpr denotes)) form
  · rw [written]
    refine @IsLiteral.unit ['0', '0', high, low] rest rfl ?_ form
    have highHex := isHexDigit_of_hexDigit? highDigit
    have lowHex := isHexDigit_of_hexDigit? lowDigit
    have zero : IsHexDigit '0' := .inl rfl
    simp [highHex, lowHex, zero]
  · rw [written]
    exact .plain notQuote notBackslash printable form

theorem isLiteral_flatMap_escapeChar (text : List Char) :
    IsLiteral (text.flatMap escapeChar) := by
  induction text with
  | nil => exact .nil
  | cons character text induction =>
      exact isLiteral_escapeChar_append character induction

theorem denotes_written (text : String) :
    Denotes (written text) text.toList :=
  denotes_of_unescape? (isLiteral_flatMap_escapeChar text.toList)
    (unescape?_flatMap_escapeChar text.toList)

theorem toList_quote (text : String) :
    (quote text).toList = '"' :: (written text ++ ['"']) := by
  simp [quote, written]

/-- What is printed for a string spells it. -/
theorem spells_quote (text : String) :
    Spells (quote text).toList (.string (written text)) := by
  rw [toList_quote]
  exact .string (isLiteral_flatMap_escapeChar text.toList)

end Strings

section Objects

variable {α : Type} (name print : α → String) (value : α → Value)

/-- The line of a member, without its end. -/
def line (entry : α) : String :=
  "  " ++ quote (name entry) ++ ": " ++ print entry

variable {name print value} {entry : α} {entries : List α}

/-- A line spells its member together with the ends of lines around it. -/
theorem spellsMember_line {after : List Char}
    (spells : Spells (print entry).toList (value entry))
    (blank : IsBlanks after) :
    SpellsMember ('\n' :: ((line name print entry).toList ++ after))
      (written (name entry), value entry) := by
  have front : IsBlanks ['\n', ' ', ' '] := by simp [IsBlanks]
  have space : IsBlanks [' '] := by simp [IsBlanks]
  have key := isLiteral_flatMap_escapeChar (name entry).toList
  have member :=
    SpellsMember.pair front key isBlanks_nil (.pad space spells blank)
  simpa [line, toList_quote, written] using member

/-- All lines spell their members.  The end of the last line belongs to the last
member. -/
theorem spellsMembers_lines
    (spells : Spells (print entry).toList (value entry))
    (each : ∀ other ∈ entries, Spells (print other).toList (value other)) :
    ∃ text more,
      '\n' :: ((line name print entry).toList ++
        (entries.flatMap (fun other =>
          ',' :: '\n' :: (line name print other).toList) ++ ['\n'])) =
        text ++ more ∧
      SpellsMember text (written (name entry), value entry) ∧
      SpellsMembers more
        (entries.map fun other => (written (name other), value other)) := by
  induction entries generalizing entry with
  | nil =>
      have ending : IsBlanks ['\n'] := by simp [IsBlanks]
      exact ⟨_, [], (List.append_nil _).symm, spellsMember_line spells ending,
        .nil⟩
  | cons next entries induction =>
      obtain ⟨spellsNext, others⟩ := List.forall_mem_cons.mp each
      obtain ⟨text, more, same, first, further⟩ := induction spellsNext others
      refine ⟨'\n' :: ((line name print entry).toList ++ []),
        ',' :: (text ++ more), ?_, spellsMember_line spells isBlanks_nil,
        .cons first further⟩
      simp [← same]

/-- A printed object spells its members. -/
theorem spells_prettyObject
    (each : ∀ entry ∈ entries, Spells (print entry).toList (value entry)) :
    Spells
      (prettyObject (entries.map fun entry => (name entry, print entry))).toList
      (.object
        (entries.map fun entry => (written (name entry), value entry))) := by
  cases entries with
  | nil =>
      have empty : (prettyObject []).toList = '\x7b' :: ([] ++ ['\x7d']) := rfl
      rw [List.map_nil, empty]
      exact .emptyObject isBlanks_nil
  | cons entry entries =>
      obtain ⟨spells, others⟩ := List.forall_mem_cons.mp each
      obtain ⟨text, more, same, first, further⟩ :=
        @spellsMembers_lines α name print value entry entries spells others
      have lines : (String.intercalate ",\n"
          ((entry :: entries).map (line name print))).toList =
            (line name print entry).toList ++ entries.flatMap fun other =>
              ',' :: '\n' :: (line name print other).toList := by
        rw [String.toList_intercalate, List.map_map]
        exact intercalate_map_cons _ _ _ _
      have printed : prettyObject
          ((entry :: entries).map fun entry => (name entry, print entry)) =
            "\x7b\n" ++ String.intercalate ",\n"
              ((entry :: entries).map (line name print)) ++ "\n\x7d" := by
        simp only [prettyObject, List.map_map]
        rfl
      have opened : "\x7b\n".toList = ['\x7b', '\n'] := rfl
      have closed : "\n\x7d".toList = ['\n', '\x7d'] := rfl
      have spelled := Spells.object first further
      rw [← List.append_assoc text, ← same] at spelled
      rw [printed, String.toList_append, String.toList_append, lines, opened,
        closed]
      simpa only [List.map_cons, List.cons_append, List.nil_append,
        List.append_assoc] using spelled

end Objects

/-- A member whose value is a string, with the literals that are written. -/
def writtenMember (member : String × String) : List Char × Value :=
  (written member.1, .string (written member.2))

/-- What is printed for strings under keys. -/
def stringObject (members : List (String × String)) : String :=
  prettyObject (members.map fun member => (member.1, quote member.2))

/-- A printed object of strings is read as the object that was printed. -/
theorem ofText?_stringObject (members : List (String × String)) :
    Value.ofText? (stringObject members) =
      some (.object (members.map writtenMember)) := by
  have spells : Spells (stringObject members).toList
      (.object (members.map writtenMember)) :=
    spells_prettyObject fun member _ => spells_quote member.2
  exact Value.ofText?_eq_some_iff.mpr spells.padded

end Json

end MaterialGraph
