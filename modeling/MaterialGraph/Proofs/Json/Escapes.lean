import MaterialGraph.Json.Token
import MaterialGraph.Proofs.Json.Grammar

/-!
# Which literals are strings

The stages through which a string is read accept the literals of the grammar and
nothing else.
-/

namespace MaterialGraph

namespace Json

namespace EscapeStage

/-- Where a further character of a string leads, if it is not the closing
quote. -/
def next? (stage : EscapeStage) (character : Char) : Option EscapeStage :=
  match stage with
  | outside =>
      if character = '"' then none
      else if character = '\\' then some backslash
      else if character.toNat < 0x20 then none
      else some outside
  | backslash =>
      if character = 'u' then some (code 4)
      else if Lexer.isShortEscape character then some outside
      else none
  | code digitsLeft =>
      if Lexer.isHexDigit character then
        some (if digitsLeft ≤ 1 then outside else code (digitsLeft - 1))
      else
        none

/-- What may follow up to the closing quote. -/
def Completes : EscapeStage → List Char → Prop
  | outside, literal => IsLiteral literal
  | backslash, literal => IsLiteral ('\\' :: literal)
  | code digitsLeft, literal =>
      ∃ digits rest, literal = digits ++ rest ∧
        digits.length = max 1 digitsLeft ∧
        (∀ digit ∈ digits, IsHexDigit digit) ∧ IsLiteral rest

end EscapeStage

theorem isHexDigit_iff {character : Char} :
    Lexer.isHexDigit character ↔ IsHexDigit character := by
  simp [Lexer.isHexDigit, IsHexDigit, or_assoc]

theorem isShortEscape_iff {character : Char} :
    Lexer.isShortEscape character ↔
      character ∈ shortEscapes.map Prod.fst := by
  simp [Lexer.isShortEscape, shortEscapes]

namespace EscapeStage

variable {stage : EscapeStage} {character : Char} {rest : List Char}

theorem completes_nil : stage.Completes [] ↔ stage = outside := by
  cases stage with
  | outside => simp [Completes, IsLiteral.nil]
  | backslash =>
      constructor
      · intro form
        cases form with
        | plain _ notBackslash _ _ => exact (notBackslash rfl).elim
      · nofun
  | code digitsLeft =>
      constructor
      · rintro ⟨digits, rest, same, count, -, -⟩
        obtain ⟨rfl, -⟩ := List.append_eq_nil_iff.mp same.symm
        rw [List.length_nil] at count
        omega
      · nofun

/-- A character between the quotes either stands for itself or begins an
escape. -/
theorem completes_outside_cons :
    outside.Completes (character :: rest) ↔
      ∃ later, outside.next? character = some later ∧ later.Completes rest := by
  by_cases isQuote : character = '"'
  · subst isQuote
    simp only [next?, if_true, reduceCtorEq, false_and, exists_false, iff_false]
    intro form
    cases form with
    | plain notQuote => exact notQuote rfl
  by_cases isBackslash : character = '\\'
  · subst isBackslash
    simp [next?, Completes]
  by_cases control : character.toNat < 0x20
  · simp only [next?, isQuote, isBackslash, control, if_true, if_false,
      reduceCtorEq, false_and, exists_false, iff_false]
    intro form
    cases form with
    | plain _ _ printable => omega
    | short | unit => exact isBackslash rfl
  · simp only [next?, isQuote, isBackslash, control, if_false,
      Option.some.injEq, exists_eq_left']
    constructor
    · intro form
      cases form with
      | plain _ _ _ others => exact others
      | short | unit => exact (isBackslash rfl).elim
    · exact .plain isQuote isBackslash (Nat.le_of_not_lt control)

theorem completes_backslash_cons :
    backslash.Completes (character :: rest) ↔
      ∃ later, backslash.next? character = some later ∧
        later.Completes rest := by
  by_cases isUnit : character = 'u'
  · subst isUnit
    simp only [next?, if_true, Option.some.injEq, exists_eq_left']
    constructor
    · intro form
      cases form with
      | plain _ notBackslash => exact (notBackslash rfl).elim
      | short isShort => exact absurd isShort (by decide)
      | @unit digits others count areHex form =>
          exact ⟨digits, others, rfl, count, areHex, form⟩
    · rintro ⟨digits, others, rfl, count, areHex, form⟩
      exact .unit count areHex form
  by_cases isShort : Lexer.isShortEscape character
  · simp only [next?, isUnit, isShort, if_true, if_false, Option.some.injEq,
      exists_eq_left']
    constructor
    · intro form
      cases form with
      | plain _ notBackslash => exact (notBackslash rfl).elim
      | short _ others => exact others
      | unit => exact (isUnit rfl).elim
    · exact .short (isShortEscape_iff.mp isShort)
  · simp only [next?, isUnit, isShort, if_false, reduceCtorEq, false_and,
      exists_false, iff_false, Bool.false_eq_true]
    intro form
    cases form with
    | plain _ notBackslash => exact notBackslash rfl
    | short member => exact isShort (isShortEscape_iff.mpr member)
    | unit => exact isUnit rfl

theorem completes_code_cons {digitsLeft : Nat} :
    (code digitsLeft).Completes (character :: rest) ↔
      ∃ later, (code digitsLeft).next? character = some later ∧
        later.Completes rest := by
  by_cases isHex : Lexer.isHexDigit character
  · simp only [next?, isHex, if_true, Option.some.injEq, exists_eq_left']
    by_cases last : digitsLeft ≤ 1
    · simp only [last, if_true]
      constructor
      · rintro ⟨digits, others, same, count, areHex, form⟩
        obtain ⟨digit, rfl⟩ : ∃ digit, digits = [digit] :=
          List.length_eq_one_iff.mp (by omega)
        cases same
        exact form
      · intro form
        refine ⟨[character], rest, rfl, ?_, ?_, form⟩
        · rw [List.length_singleton]
          omega
        · simpa using isHexDigit_iff.mp isHex
    · simp only [last, if_false]
      constructor
      · rintro ⟨digits, others, same, count, areHex, form⟩
        cases digits with
        | nil =>
          rw [List.length_nil] at count
          omega
        | cons digit digits =>
            cases same
            rw [List.length_cons] at count
            exact ⟨digits, others, rfl, by omega,
              (List.forall_mem_cons.mp areHex).2, form⟩
      · rintro ⟨digits, others, rfl, count, areHex, form⟩
        refine ⟨character :: digits, others, rfl, ?_, ?_, form⟩
        · rw [List.length_cons]
          omega
        · exact List.forall_mem_cons.mpr ⟨isHexDigit_iff.mp isHex, areHex⟩
  · simp only [next?, isHex, if_false, reduceCtorEq, false_and, exists_false,
      iff_false, Bool.false_eq_true]
    rintro ⟨digits, others, same, count, areHex, form⟩
    cases digits with
    | nil =>
      rw [List.length_nil] at count
      omega
    | cons digit digits =>
        cases same
        exact isHex (isHexDigit_iff.mpr (areHex _ List.mem_cons_self))

theorem completes_cons :
    stage.Completes (character :: rest) ↔
      ∃ later, stage.next? character = some later ∧ later.Completes rest := by
  cases stage with
  | outside => exact completes_outside_cons
  | backslash => exact completes_backslash_cons
  | code digitsLeft => exact completes_code_cons

end EscapeStage

end Json

end MaterialGraph
