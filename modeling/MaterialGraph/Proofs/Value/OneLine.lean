import MaterialGraph.Expression.Dump

/-!
# Texts without newlines

What is shown for types, values and tags takes one line.  A text value may
have newlines, but they are escaped when it is quoted.  Only names and the
texts of other systems are shown as they are.
-/

namespace MaterialGraph

/-- The text takes one line. -/
def OneLine (text : String) : Prop :=
  '\n' ∉ text.toList

namespace OneLine

instance (text : String) : Decidable (OneLine text) :=
  inferInstanceAs (Decidable ('\n' ∉ text.toList))

theorem append {first second : String} (oneLine : OneLine first)
    (oneLine' : OneLine second) : OneLine (first ++ second) := by
  rw [OneLine, String.toList_append, List.mem_append]
  exact not_or.mpr ⟨oneLine, oneLine'⟩

theorem ofList {characters : List Char} (none : '\n' ∉ characters) :
    OneLine (String.ofList characters) := by
  rwa [OneLine, String.toList_ofList]

end OneLine

section Digits

theorem digitChar_ne_newline : ∀ digit < 16, Nat.digitChar digit ≠ '\n' := by
  decide

theorem newline_notMem_toDigits {base : Nat} (large : 1 < base)
    (small : base ≤ 16) (number : Nat) : '\n' ∉ Nat.toDigits base number := by
  induction number using Nat.strongRecOn with
  | ind number induction =>
      by_cases single : number < base
      · rw [Nat.toDigits_of_lt_base single, List.mem_singleton]
        exact (digitChar_ne_newline number
          (Nat.lt_of_lt_of_le single small)).symm
      · have higher := induction (number / base)
          (Nat.div_lt_self (by omega) large)
        have last := digitChar_ne_newline (number % base)
          (Nat.lt_of_lt_of_le (Nat.mod_lt number (by omega)) small)
        rw [Nat.toDigits_of_base_le large (Nat.le_of_not_lt single),
          List.mem_append, List.mem_singleton]
        exact not_or.mpr ⟨higher, last.symm⟩

theorem oneLine_toString (number : Nat) : OneLine (toString number) := by
  rw [Nat.toString_eq_ofList_toDigits]
  exact .ofList (newline_notMem_toDigits (by decide) (by decide) number)

theorem oneLine_toString_int (number : Int) : OneLine (toString number) := by
  cases number with
  | ofNat number => exact oneLine_toString number
  | negSucc number =>
      have minus : OneLine "-" := by decide
      exact minus.append (oneLine_toString (number + 1))

end Digits

section Numbers

open Decimal.Layout

variable {digits : List Char} (none : '\n' ∉ digits)

include none

theorem newline_notMem_mantissa : '\n' ∉ mantissa digits := by
  cases digits with
  | nil => decide
  | cons digit others =>
      cases others with
      | nil => exact none
      | cons next others => simpa [mantissa] using none

theorem newline_notMem_positional (leading : Int) :
    '\n' ∉ positional digits leading := by
  unfold positional
  split
  · simp [none]
  · have padded (count : Nat) : '\n' ∉ digits ++ List.replicate count '0' := by
      simp [none]
    have whole (count length : Nat) :
        '\n' ∉ (digits ++ List.replicate count '0').take length :=
      fun taken => padded count (List.mem_of_mem_take taken)
    have fraction (count length : Nat) :
        '\n' ∉ (digits ++ List.replicate count '0').drop length :=
      fun dropped => padded count (List.mem_of_mem_drop dropped)
    simp only [List.mem_append, not_or]
    refine ⟨⟨whole _ _, by decide⟩, ?_⟩
    split
    · decide
    · exact fraction _ _

theorem newline_notMem_scientific (leading : Int) :
    '\n' ∉ scientific digits leading := by
  have exponent := oneLine_toString_int leading
  have letter : '\n' ∉ ['e'] := by decide
  rw [scientific, List.mem_append, List.mem_append]
  exact not_or.mpr ⟨not_or.mpr ⟨newline_notMem_mantissa none, letter⟩, exponent⟩

end Numbers

theorem newline_notMem_write (layout : Decimal.Layout) (decimal : Decimal) :
    '\n' ∉ layout.write decimal := by
  have digits : '\n' ∉ Decimal.Layout.trimZeros (Nat.toDigits 10 decimal.digits) := by
    rw [Decimal.Layout.trimZeros, List.mem_reverse]
    intro member
    have inside := (List.dropWhile_suffix _).subset member
    rw [List.mem_reverse] at inside
    exact newline_notMem_toDigits (by decide) (by decide) _ inside
  unfold Decimal.Layout.write
  dsimp only
  split
  · exact newline_notMem_positional digits _
  · exact newline_notMem_scientific digits _

section Values

theorem Binary32.oneLine_text (number : Binary32) : OneLine number.text := by
  have magnitude : '\n' ∉ number.magnitudeText := by
    unfold magnitudeText
    split
    · decide
    · split
      · decide
      · exact newline_notMem_write _ _
  unfold text
  split
  · decide
  · split
    · exact .ofList (by simp [magnitude])
    · exact .ofList magnitude

theorem newline_notMem_showChar (character : Char) :
    '\n' ∉ Quoted.showChar character := by
  unfold Quoted.showChar
  split
  · decide
  · decide
  · decide
  · decide
  · decide
  · decide
  · -- all cases but that of the newline are past
    rename_i notNewline _ _ _
    have digits := newline_notMem_toDigits (by decide : 1 < 16) (by decide)
      character.toNat
    split
    · simp [Quoted.escapeCode, digits]
    · exact fun same => notNewline (List.mem_singleton.mp same).symm

theorem oneLine_quote (text : String) : OneLine (Quoted.quote text) := by
  have shown : '\n' ∉ text.toList.flatMap Quoted.showChar := by
    intro member
    obtain ⟨character, -, inside⟩ := List.mem_flatMap.mp member
    exact newline_notMem_showChar character inside
  refine .ofList ?_
  simp [shown]

theorem BasicValue.oneLine_text (value : BasicValue) : OneLine value.text := by
  cases value with
  | bool truth => cases truth <;> decide
  | int number => exact oneLine_toString_int number.toInt
  | float number => exact number.oneLine_text
  | color red green blue =>
      have opening : OneLine "color(" := by decide
      have comma : OneLine ", " := by decide
      have closing : OneLine ")" := by decide
      exact ((((opening.append red.oneLine_text).append comma).append
        green.oneLine_text).append comma).append blue.oneLine_text |>.append
          closing
  | string content => exact oneLine_quote content

theorem BasicType.oneLine_text (type : BasicType) : OneLine type.text := by
  cases type <;> decide

theorem Tag.oneLine_text (tag : Tag) : OneLine tag.text := by
  have word : OneLine "tag " := by decide
  exact word.append (oneLine_toString tag.number.toNat)

theorem ExpressionKind.oneLine_text (kind : ExpressionKind) :
    OneLine kind.text := by
  cases kind <;> decide

end Values

end MaterialGraph
