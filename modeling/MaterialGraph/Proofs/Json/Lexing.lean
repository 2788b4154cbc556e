import MaterialGraph.Proofs.Json.Escapes
import MaterialGraph.Proofs.Json.Number

/-!
# Which texts are tokens

A text is split into tokens exactly if it consists of written tokens with blanks
between them.  A number goes on as long as it can; no other token depends on
what follows it.
-/

namespace MaterialGraph

namespace Json

/-- The tokens that are always written alike. -/
def fixedTokens : List (Token × List Char) :=
  [(.openBrace, ['\x7b']), (.closeBrace, ['\x7d']), (.openBracket, ['[']),
    (.closeBracket, [']']), (.comma, [',']), (.colon, [':']),
    (.null, "null".toList), (.bool true, "true".toList),
    (.bool false, "false".toList)]

/-- Tokens one after the other, from a place between tokens on. -/
inductive Written : List Char → List Token → Prop
  | nil : Written [] []
  | blank {character : Char} {text : List Char} {tokens : List Token} :
      character ∈ [' ', '\t', '\n', '\r'] → Written text tokens →
      Written (character :: text) tokens
  | fixed {token : Token} {word text : List Char} {tokens : List Token} :
      (token, word) ∈ fixedTokens → Written text tokens →
      Written (word ++ text) (token :: tokens)
  | string {literal text : List Char} {tokens : List Token} :
      IsLiteral literal → Written text tokens →
      Written ('"' :: (literal ++ '"' :: text)) (.string literal :: tokens)
  | number {sign magnitude text : List Char} {stage : NumberStage}
      {tokens : List Token} :
      sign ∈ [[], ['-']] →
      magnitude.foldlM NumberStage.next? .minus = some stage →
      stage.isFinal → (∀ next ∈ text.head?, stage.next? next = none) →
      Written text tokens →
      Written (sign ++ (magnitude ++ text))
        (.number (sign ++ magnitude) :: tokens)

theorem isBlank_iff {character : Char} :
    Lexer.isBlank character ↔ character ∈ [' ', '\t', '\n', '\r'] := by
  simp [Lexer.isBlank, or_assoc]

namespace Lexer

/-- What may remain of a text, and the tokens that are still to come. -/
def Remains (lexer : Lexer) (text : List Char) (tokens : List Token) : Prop :=
  match lexer.scan with
  | .between =>
      ∃ others, tokens = lexer.tokens.reverse ++ others ∧ Written text others
  | .word token expected =>
      expected ≠ [] ∧ ∃ rest others, text = expected ++ rest ∧
        tokens = lexer.tokens.reverse ++ token :: others ∧ Written rest others
  | .number read stage =>
      ∃ more last rest others, text = more ++ rest ∧
        more.foldlM NumberStage.next? stage = some last ∧ last.isFinal ∧
        (∀ next ∈ rest.head?, last.next? next = none) ∧
        tokens = lexer.tokens.reverse ++
          .number (read.reverse ++ more) :: others ∧
        Written rest others
  | .string read stage =>
      ∃ more rest others, text = more ++ '"' :: rest ∧ stage.Completes more ∧
        tokens = lexer.tokens.reverse ++
          .string (read.reverse ++ more) :: others ∧
        Written rest others

/-- The lexer that awaits the rest of a word. -/
def await (before : List Token) (token : Token) : List Char → Lexer
  | [] => ⟨token :: before, .between⟩
  | next :: others => ⟨before, .word token (next :: others)⟩

/-- The lexer that has read the first digit of a number. -/
def ofDigit (before : List Token) (digit : Char) : Lexer :=
  ⟨before, .number [digit] (if digit = '0' then .zero else .whole)⟩

variable {before : List Token} {token : Token} {character : Char}
  {word text : List Char} {tokens : List Token} {lexer later : Lexer}

theorem remains_await :
    (await before token word).Remains text tokens ↔
      ∃ rest others, text = word ++ rest ∧
        tokens = before.reverse ++ token :: others ∧ Written rest others := by
  cases word <;> simp [await, Remains]

section Start

theorem not_isBlank_of_isDigit (digit : character.isDigit) :
    isBlank character = false := by
  rw [Bool.eq_false_iff]
  intro blank
  have listed := isBlank_iff.mp blank
  simp only [List.mem_cons, List.not_mem_nil, or_false] at listed
  rcases listed with rfl | rfl | rfl | rfl <;> cases digit

theorem start_of_blank (blank : character ∈ [' ', '\t', '\n', '\r']) :
    start before character = some ⟨before, .between⟩ := by
  unfold start
  rw [if_pos (isBlank_iff.mpr blank)]

theorem start_of_digit (digit : character.isDigit) :
    start before character = some (ofDigit before character) := by
  unfold start
  rw [not_isBlank_of_isDigit digit, if_neg Bool.false_ne_true, if_pos digit]
  rfl

theorem start_of_fixed (listed : (token, character :: word) ∈ fixedTokens) :
    start before character = some (await before token word) := by
  simp only [fixedTokens, List.mem_cons, Prod.mk.injEq, List.not_mem_nil,
    or_false] at listed
  rcases listed with ⟨rfl, same⟩ | ⟨rfl, same⟩ | ⟨rfl, same⟩ | ⟨rfl, same⟩ |
    ⟨rfl, same⟩ | ⟨rfl, same⟩ | ⟨rfl, same⟩ | ⟨rfl, same⟩ | ⟨rfl, same⟩ <;>
    cases same <;> rfl

/-- All ways in which a token, or nothing but a blank, may begin. -/
theorem start_cases (started : start before character = some later) :
    (∃ token word, (token, character :: word) ∈ fixedTokens ∧
      later = await before token word) ∨
    (character ∈ [' ', '\t', '\n', '\r'] ∧ later = ⟨before, .between⟩) ∨
    (character.isDigit ∧ later = ofDigit before character) ∨
    (character = '-' ∧ later = ⟨before, .number ['-'] .minus⟩) ∨
    (character = '"' ∧ later = ⟨before, .string [] .outside⟩) := by
  unfold start at started
  split at started
  · rename_i blank
    cases started
    exact .inr (.inl ⟨isBlank_iff.mp blank, rfl⟩)
  · split at started
    · rename_i digit
      cases started
      exact .inr (.inr (.inl ⟨digit, rfl⟩))
    · split at started <;> cases started
      · exact .inl ⟨.openBrace, [], by decide, rfl⟩
      · exact .inl ⟨.closeBrace, [], by decide, rfl⟩
      · exact .inl ⟨.openBracket, [], by decide, rfl⟩
      · exact .inl ⟨.closeBracket, [], by decide, rfl⟩
      · exact .inl ⟨.comma, [], by decide, rfl⟩
      · exact .inl ⟨.colon, [], by decide, rfl⟩
      · exact .inr (.inr (.inr (.inr ⟨rfl, rfl⟩)))
      · exact .inr (.inr (.inr (.inl ⟨rfl, rfl⟩)))
      · exact .inl ⟨.null, "ull".toList, by decide, rfl⟩
      · exact .inl ⟨.bool true, "rue".toList, by decide, rfl⟩
      · exact .inl ⟨.bool false, "alse".toList, by decide, rfl⟩

end Start

/-- The first digit decides between the two stages after it. -/
theorem next?_minus {stage : NumberStage} :
    NumberStage.minus.next? character = some stage ↔
      character.isDigit ∧
        (if character = '0' then .zero else .whole) = stage := by
  by_cases isZero : character = '0'
  · subst isZero
    simp [NumberStage.next?]
  · by_cases digit : character.isDigit <;>
      simp [NumberStage.next?, isZero, digit]

/-- No written token is empty. -/
theorem written_nil : Written [] tokens ↔ tokens = [] := by
  constructor
  · intro written
    generalize whole : [] = text at written
    cases written with
    | nil => rfl
    | blank | string => cases whole
    | fixed listed =>
        obtain ⟨rfl, -⟩ := List.append_eq_nil_iff.mp whole.symm
        simp [fixedTokens] at listed
    | number isSign run final =>
        obtain ⟨-, rest⟩ := List.append_eq_nil_iff.mp whole.symm
        obtain ⟨rfl, -⟩ := List.append_eq_nil_iff.mp rest
        cases run
        cases final
  · rintro rfl
    exact .nil

/-- The first character of a written text begins a token, or is a blank. -/
theorem start_of_written (before : List Token)
    (written : Written (character :: text) tokens) :
    ∃ later, start before character = some later ∧
      later.Remains text (before.reverse ++ tokens) := by
  generalize whole : character :: text = whole at written
  cases written with
  | nil => cases whole
  | blank blank written =>
      cases whole
      exact ⟨_, start_of_blank blank, _, rfl, written⟩
  | @fixed token word rest others listed written =>
      cases word with
      | nil => simp [fixedTokens] at listed
      | cons first word =>
          cases whole
          exact ⟨_, start_of_fixed listed,
            remains_await.mpr ⟨rest, others, rfl, rfl, written⟩⟩
  | @string literal rest others form written =>
      cases whole
      exact ⟨⟨before, .string [] .outside⟩, rfl, literal, rest, others, rfl,
        form, rfl, written⟩
  | @number sign magnitude rest last others isSign run final stops written =>
      simp only [List.mem_cons, List.not_mem_nil, or_false] at isSign
      rcases isSign with rfl | rfl
      · cases magnitude with
        | nil =>
            cases run
            cases final
        | cons first more =>
            cases whole
            rw [List.foldlM_cons, Option.bind_eq_bind,
              Option.bind_eq_some_iff] at run
            obtain ⟨stage, begun, run⟩ := run
            obtain ⟨digit, rfl⟩ := next?_minus.mp begun
            exact ⟨_, start_of_digit digit, more, last, rest, others, rfl, run,
              final, stops, rfl, written⟩
      · cases whole
        exact ⟨⟨before, .number ['-'] .minus⟩, rfl, magnitude, last, rest,
          others, rfl, run, final, stops, rfl, written⟩

theorem written_of_start (started : start before character = some later)
    (remains : later.Remains text tokens) :
    ∃ others, tokens = before.reverse ++ others ∧
      Written (character :: text) others := by
  rcases start_cases started with ⟨token, word, listed, rfl⟩ | ⟨blank, rfl⟩ |
    ⟨digit, rfl⟩ | ⟨rfl, rfl⟩ | ⟨rfl, rfl⟩
  · obtain ⟨rest, others, rfl, same, written⟩ := remains_await.mp remains
    exact ⟨_, same, .fixed listed written⟩
  · obtain ⟨others, same, written⟩ := remains
    exact ⟨_, same, .blank blank written⟩
  · obtain ⟨more, last, rest, others, rfl, run, final, stops, same, written⟩ :=
      remains
    have begun := next?_minus.mpr ⟨digit, rfl⟩
    have whole : (character :: more).foldlM NumberStage.next? .minus =
        some last := by
      rw [List.foldlM_cons, begun]
      exact run
    exact ⟨_, same, @Written.number [] (character :: more) rest last others
      (by simp) whole final stops written⟩
  · obtain ⟨more, last, rest, others, rfl, run, final, stops, same, written⟩ :=
      remains
    exact ⟨_, same, @Written.number ['-'] more rest last others (by simp) run
      final stops written⟩
  · obtain ⟨literal, rest, others, rfl, form, same, written⟩ := remains
    exact ⟨_, same, .string form written⟩

theorem step_word {next : Char} {others : List Char} :
    step ⟨before, .word token (next :: others)⟩ character =
      if character = next then some (await before token others) else none := by
  cases others <;> rfl

theorem step_string {read : List Char} {stage : EscapeStage} :
    step ⟨before, .string read stage⟩ character =
      if stage = .outside ∧ character = '"' then
        some ⟨.string read.reverse :: before, .between⟩
      else
        (stage.next? character).map fun later =>
          ⟨before, .string (character :: read) later⟩ := by
  cases stage with
  | outside =>
      by_cases isQuote : character = '"'
      · simp [step, isQuote]
      · simp only [step, EscapeStage.next?, isQuote, and_false, if_false]
        split
        · rfl
        · split <;> rfl
  | backslash =>
      simp only [step, EscapeStage.next?, reduceCtorEq, false_and, if_false]
      split
      · rfl
      · split <;> rfl
  | code digitsLeft =>
      simp only [step, EscapeStage.next?, reduceCtorEq, false_and, if_false]
      split <;> rfl

theorem remains_nil : lexer.Remains [] tokens ↔ lexer.finish = some tokens := by
  obtain ⟨before, scan⟩ := lexer
  cases scan with
  | between => simp [Remains, finish, written_nil, eq_comm]
  | word token expected => simp +contextual [Remains, finish]
  | string read stage => simp [Remains, finish]
  | number read stage =>
      simp only [Remains, finish]
      constructor
      · rintro ⟨more, last, rest, others, same, run, final, -, rfl, written⟩
        obtain ⟨rfl, rfl⟩ := List.append_eq_nil_iff.mp same.symm
        cases run
        rw [written_nil.mp written, if_pos final]
        simp
      · intro finished
        by_cases final : stage.isFinal
        · rw [if_pos final] at finished
          cases finished
          exact ⟨[], stage, [], [], rfl, rfl, final, by simp, by simp, .nil⟩
        · rw [if_neg final] at finished
          cases finished

section Cons

theorem remains_between_cons :
    (⟨before, .between⟩ : Lexer).Remains (character :: text) tokens ↔
      ∃ later, start before character = some later ∧
        later.Remains text tokens := by
  constructor
  · rintro ⟨others, rfl, written⟩
    exact start_of_written before written
  · rintro ⟨later, started, remains⟩
    exact written_of_start started remains

theorem remains_word_cons {expected : List Char} :
    (⟨before, .word token expected⟩ : Lexer).Remains (character :: text)
        tokens ↔
      ∃ later, step ⟨before, .word token expected⟩ character = some later ∧
        later.Remains text tokens := by
  cases expected with
  | nil => simp [Remains, step]
  | cons next others =>
      rw [step_word]
      by_cases same : character = next
      · subst same
        simp only [if_true, Option.some.injEq, exists_eq_left', remains_await]
        simp [Remains]
      · simp [Remains, same]

theorem remains_number_cons {read : List Char} {stage : NumberStage} :
    (⟨before, .number read stage⟩ : Lexer).Remains (character :: text)
        tokens ↔
      ∃ later, step ⟨before, .number read stage⟩ character = some later ∧
        later.Remains text tokens := by
  cases next : stage.next? character with
  | some following =>
      simp only [step, next, Option.some.injEq, exists_eq_left']
      constructor
      · rintro ⟨more, last, rest, others, same, run, final, stops, rfl, written⟩
        cases more with
        | nil =>
            cases run
            cases same
            exact absurd (stops character rfl) (by simp [next])
        | cons first more =>
            cases same
            rw [List.foldlM_cons, next] at run
            exact ⟨more, last, rest, others, rfl, run, final, stops, by simp,
              written⟩
      · rintro ⟨more, last, rest, others, rfl, run, final, stops, rfl, written⟩
        refine ⟨character :: more, last, rest, others, rfl, ?_, final, stops,
          by simp, written⟩
        rw [List.foldlM_cons, next]
        exact run
  | none =>
      simp only [step, next]
      by_cases final : stage.isFinal
      · simp only [final, if_true]
        rw [← remains_between_cons]
        constructor
        · rintro ⟨more, last, rest, others, same, run, -, -, rfl, written⟩
          cases more with
          | nil =>
              cases same
              exact ⟨others, by simp, written⟩
          | cons first more =>
              cases same
              rw [List.foldlM_cons, next] at run
              cases run
        · rintro ⟨others, rfl, written⟩
          exact ⟨[], stage, character :: text, others, rfl, rfl, final,
            by simpa using next, by simp, written⟩
      · simp only [final, if_false, reduceCtorEq, false_and, exists_false,
          iff_false, Bool.false_eq_true]
        rintro ⟨more, last, rest, others, same, run, ended, -, rfl, written⟩
        cases more with
        | nil =>
            cases run
            exact final ended
        | cons first more =>
            cases same
            rw [List.foldlM_cons, next] at run
            cases run

theorem remains_string_cons {read : List Char} {stage : EscapeStage} :
    (⟨before, .string read stage⟩ : Lexer).Remains (character :: text)
        tokens ↔
      ∃ later, step ⟨before, .string read stage⟩ character = some later ∧
        later.Remains text tokens := by
  rw [step_string]
  by_cases closed : stage = .outside ∧ character = '"'
  · obtain ⟨rfl, rfl⟩ := closed
    simp only [and_self, if_true, Option.some.injEq, exists_eq_left']
    constructor
    · rintro ⟨more, rest, others, same, form, rfl, written⟩
      cases more with
      | nil =>
          cases same
          exact ⟨others, by simp, written⟩
      | cons first more =>
          cases same
          obtain ⟨later, next, -⟩ := EscapeStage.completes_cons.mp form
          cases next
    · rintro ⟨others, rfl, written⟩
      exact ⟨[], text, others, rfl, .nil, by simp, written⟩
  · rw [if_neg closed]
    constructor
    · rintro ⟨more, rest, others, same, form, rfl, written⟩
      cases more with
      | nil =>
          cases same
          exact (closed ⟨EscapeStage.completes_nil.mp form, rfl⟩).elim
      | cons first more =>
          cases same
          obtain ⟨later, next, form⟩ := EscapeStage.completes_cons.mp form
          rw [next]
          exact ⟨_, rfl, more, rest, others, rfl, form, by simp, written⟩
    · rintro ⟨_, stepped, remains⟩
      obtain ⟨later, next, rfl⟩ := Option.map_eq_some_iff.mp stepped
      obtain ⟨more, rest, others, rfl, form, rfl, written⟩ := remains
      exact ⟨character :: more, rest, others, rfl,
        EscapeStage.completes_cons.mpr ⟨later, next, form⟩, by simp, written⟩

/-- A step takes a character off what remains. -/
theorem remains_cons :
    lexer.Remains (character :: text) tokens ↔
      ∃ later, lexer.step character = some later ∧
        later.Remains text tokens := by
  obtain ⟨before, scan⟩ := lexer
  cases scan with
  | between => exact remains_between_cons
  | word token expected => exact remains_word_cons
  | number read stage => exact remains_number_cons
  | string read stage => exact remains_string_cons

end Cons

theorem remains_iff {lexer : Lexer} {text : List Char} {tokens : List Token} :
    lexer.Remains text tokens ↔
      (text.foldlM step lexer).bind finish = some tokens := by
  induction text generalizing lexer with
  | nil => exact remains_nil
  | cons character text induction =>
      rw [remains_cons, List.foldlM_cons]
      cases later : lexer.step character with
      | none => simp
      | some later => simp [induction]

end Lexer

/-- A text has tokens exactly if it is written with them. -/
theorem tokens?_eq_some_iff {text : List Char} {tokens : List Token} :
    tokens? text = some tokens ↔ Written text tokens := by
  rw [tokens?, ← Lexer.remains_iff]
  simp [Lexer.Remains]

end Json

end MaterialGraph
