import MaterialGraph.Json.Literal
import MaterialGraph.Json.Printer

/-!
# Literals that are written

The decimal digits of a number spell the number, and what is written for a
string denotes the string.
-/

namespace MaterialGraph

namespace Json

theorem digitsValue_toDigits (number : Nat) :
    digitsValue (Nat.toDigits 10 number) = number := by
  have swapped : digitsValue (Nat.toDigits 10 number) =
      Nat.ofDigitChars 10 (Nat.toDigits 10 number) 0 := by
    simp only [digitsValue, Nat.ofDigitChars, Nat.mul_comm]
  rw [swapped, Nat.ofDigitChars_ten_toDigits]

theorem all_isDigit_toDigits (number : Nat) :
    (Nat.toDigits 10 number).all Char.isDigit = true := by
  apply List.all_eq_true.mpr
  intro digit member
  exact Nat.isDigit_of_mem_toDigits (by decide) (by decide) member

/-- No zero is in front of a number that is not zero itself. -/
theorem head?_toDigits_ne {number : Nat} (positive : 0 < number) :
    (Nat.toDigits 10 number).head? ≠ some '0' := by
  induction number using Nat.strongRecOn with
  | ind number induction =>
      by_cases small : number < 10
      · rw [Nat.toDigits_of_lt_base small]
        simp
        omega
      · have higher := induction (number / 10) (by omega) (by omega)
        obtain ⟨first, others, digits⟩ :=
          List.exists_cons_of_ne_nil (Nat.toDigits_ne_nil : Nat.toDigits 10
            (number / 10) ≠ [])
        rw [Nat.toDigits_of_base_le (by decide) (by omega)]
        rw [digits] at higher ⊢
        exact higher

theorem natural?_toDigits (number : Nat) :
    natural? (Nat.toDigits 10 number) = some number := by
  by_cases zero : number = 0
  · subst zero
    rfl
  · have first := head?_toDigits_ne (Nat.pos_of_ne_zero zero)
    have digits := all_isDigit_toDigits number
    have value := digitsValue_toDigits number
    unfold natural?
    split
    · rename_i none
      exact (Nat.toDigits_ne_nil none).elim
    · rename_i single
      rw [single] at first
      exact (first rfl).elim
    · rename_i leading
      rw [leading] at first
      exact (first rfl).elim
    · rw [if_pos digits, value]

theorem long?_toDigits (number : UInt64) :
    long? (Nat.toDigits 10 number.toNat) = some number := by
  have fits : number.toNat < UInt64.size := number.toNat_lt_size
  rw [long?, natural?_toDigits]
  simp only [if_pos fits, UInt64.ofNat_toNat]

/-- The characters that are written with a backslash. -/
theorem escapeChar_cases (character : Char) :
    (∃ short, escapeChar character = ['\\', short] ∧
      shortEscape? short = some character ∧ short ≠ 'u') ∨
    (∃ high low, escapeChar character = ['\\', 'u', '0', '0', high, low] ∧
      hexDigit? high = some (character.toNat / 16) ∧
      hexDigit? low = some (character.toNat % 16) ∧
      character.toNat < 0x20) ∨
    (escapeChar character = [character] ∧ character ≠ '"' ∧
      character ≠ '\\' ∧ 0x20 ≤ character.toNat) := by
  have digit : ∀ value < 16, hexDigit? (Nat.digitChar value) = some value := by
    decide
  unfold escapeChar
  split
  case h_8 notQuote notBackslash _ _ _ _ _ =>
    by_cases control : character.toNat < 0x20
    · rw [if_pos control]
      exact .inr (.inl ⟨_, _, rfl, digit _ (by omega), digit _ (by omega),
        control⟩)
    · rw [if_neg control]
      exact .inr (.inr ⟨rfl, notQuote, notBackslash, by omega⟩)
  all_goals exact .inl ⟨_, rfl, rfl, by decide⟩

theorem unescape?_plain {character : Char} {rest : List Char}
    (notBackslash : character ≠ '\\') :
    unescape? (character :: rest) =
      (unescape? rest).bind fun text => some (character :: text) :=
  unescape?.eq_5 character rest (fun _ _ _ _ _ same _ => notBackslash same)
    (fun _ _ same _ => notBackslash same) (fun same _ => notBackslash same)

theorem unescape?_short {short : Char} {rest : List Char}
    (notUnit : short ≠ 'u') :
    unescape? ('\\' :: short :: rest) =
      (shortEscape? short).bind fun character =>
        (unescape? rest).bind fun text => some (character :: text) :=
  unescape?.eq_3 short rest fun _ _ _ _ _ same _ => notUnit same

theorem unescape?_escapeChar_append (character : Char) (rest : List Char) :
    unescape? (escapeChar character ++ rest) =
      (unescape? rest).map (character :: ·) := by
  rcases escapeChar_cases character with
    ⟨short, written, denotes, notUnicode⟩ |
    ⟨high, low, written, highDigit, lowDigit, control⟩ |
    ⟨written, -, notBackslash, -⟩
  · rw [written, List.cons_append, List.cons_append, List.nil_append,
      unescape?_short notUnicode, denotes]
    cases unescape? rest <;> rfl
  · have unit : codeUnit? '0' '0' high low = some character.toNat := by
      have zero : hexDigit? '0' = some 0 := rfl
      simp [codeUnit?, zero, highDigit, lowDigit]
      omega
    have notHigh : isHighSurrogate character.toNat = false := by
      simp [isHighSurrogate]
      omega
    have notLow : isLowSurrogate character.toNat = false := by
      simp [isLowSurrogate]
      omega
    have same : Char.ofNat character.toNat = character :=
      Char.ofNat_toNat character
    simp only [written, List.cons_append, List.nil_append, unescape?.eq_2,
      unit, Option.bind_eq_bind, Option.bind_some, notHigh, notLow,
      Bool.false_eq_true, if_false, same]
    cases unescape? rest <;> rfl
  · rw [written, List.cons_append, List.nil_append,
      unescape?_plain notBackslash]
    cases unescape? rest <;> rfl

/-- What is written for a string denotes the string. -/
theorem unescape?_flatMap_escapeChar (text : List Char) :
    unescape? (text.flatMap escapeChar) = some text := by
  induction text with
  | nil => rfl
  | cons character text induction =>
      rw [List.flatMap_cons, unescape?_escapeChar_append, induction]
      rfl

/-- Digits are written as they are. -/
theorem flatMap_escapeChar_toDigits (number : Nat) :
    (Nat.toDigits 10 number).flatMap escapeChar = Nat.toDigits 10 number := by
  have plain : ∀ value < 10,
      escapeChar (Nat.digitChar value) = [Nat.digitChar value] := by
    decide
  induction number using Nat.strongRecOn with
  | ind number induction =>
      by_cases small : number < 10
      · rw [Nat.toDigits_of_lt_base small, List.flatMap_singleton,
          plain number small]
      · have higher := induction (number / 10) (by omega)
        have last := plain (number % 10) (by omega)
        rw [Nat.toDigits_of_base_le (by decide) (by omega),
          List.flatMap_append, higher, List.flatMap_singleton, last]

end Json

end MaterialGraph
