import MaterialGraph.Proofs.Json.Building
import MaterialGraph.Proofs.Json.Lexing

/-!
# Which texts spell a value

A text is written with the tokens of a value exactly if it spells the value in
the grammar.  So the reader accepts the texts of the grammar and no others, and
what it finds in them is what they spell.
-/

namespace MaterialGraph

namespace Json

/-- The characters that no number can go on with. -/
def delimiters : List Char :=
  [' ', '\t', '\n', '\r', ',', ']', '\x7d']

/-- What follows a number, if anything does, ends it. -/
def Delimits (rest : List Char) : Prop :=
  ∀ next ∈ rest.head?, next ∈ delimiters

section Words

variable {text rest : List Char} {token : Token} {tokens : List Token}

theorem delimits_nil : Delimits [] :=
  nofun

theorem delimits_cons {next : Char} (listed : next ∈ delimiters) :
    Delimits (next :: rest) := by
  simpa [Delimits] using listed

theorem isBlanks_nil : IsBlanks [] :=
  nofun

theorem IsBlanks.delimits_append {blanks : List Char} (blank : IsBlanks blanks)
    (delimits : Delimits rest) : Delimits (blanks ++ rest) := by
  cases blanks with
  | nil => exact delimits
  | cons first others =>
      have listed := blank first List.mem_cons_self
      apply delimits_cons
      simp only [List.mem_cons, List.not_mem_nil, or_false] at listed
      rcases listed with rfl | rfl | rfl | rfl <;> decide

theorem next?_of_mem_delimiters {next : Char} (listed : next ∈ delimiters)
    (stage : NumberStage) : stage.next? next = none := by
  simp only [delimiters, List.mem_cons, List.not_mem_nil, or_false] at listed
  rcases listed with rfl | rfl | rfl | rfl | rfl | rfl | rfl <;>
    cases stage <;> rfl

theorem IsBlanks.written {blanks : List Char} (blank : IsBlanks blanks)
    (written : Written text tokens) : Written (blanks ++ text) tokens := by
  induction blanks with
  | nil => exact written
  | cons first others induction =>
      obtain ⟨firstBlank, othersBlank⟩ := List.forall_mem_cons.mp blank
      exact .blank firstBlank (induction othersBlank)

theorem IsNumber.written {literal : List Char} (number : IsNumber literal)
    (delimits : Delimits rest) (written : Written rest tokens) :
    Written (literal ++ rest) (.number literal :: tokens) := by
  obtain ⟨sign, magnitude, rfl, isSign, stage, run, final⟩ :=
    isNumber_iff.mp number
  have stops : ∀ next ∈ rest.head?, stage.next? next = none :=
    fun next first => next?_of_mem_delimiters (delimits next first) stage
  rw [List.append_assoc]
  exact .number isSign run final stops written

/-- The characters of a token. -/
def Token.IsWord (word : List Char) : Token → Prop
  | .number literal => IsNumber literal ∧ word = literal
  | .string literal => IsLiteral literal ∧ word = '"' :: (literal ++ ['"'])
  | token => (token, word) ∈ fixedTokens

theorem isWord_of_mem_fixedTokens {word : List Char}
    (listed : (token, word) ∈ fixedTokens) : token.IsWord word := by
  cases token with
  | number | string => simp [fixedTokens] at listed
  | _ => exact listed

/-- The first token stands in front, behind blanks only. -/
theorem Written.split (written : Written text (token :: tokens)) :
    ∃ before word rest, text = before ++ (word ++ rest) ∧ IsBlanks before ∧
      token.IsWord word ∧ Written rest tokens := by
  generalize whole : token :: tokens = all at written
  induction written with
  | nil => cases whole
  | @blank character text all blank written induction =>
      obtain ⟨before, word, rest, rfl, blanks, isWord, others⟩ :=
        induction whole
      exact ⟨character :: before, word, rest, rfl,
        List.forall_mem_cons.mpr ⟨blank, blanks⟩, isWord, others⟩
  | fixed listed written =>
      cases whole
      exact ⟨[], _, _, rfl, isBlanks_nil, isWord_of_mem_fixedTokens listed,
        written⟩
  | @string literal text all form written =>
      cases whole
      exact ⟨[], '"' :: (literal ++ ['"']), text, by simp, isBlanks_nil,
        ⟨form, rfl⟩, written⟩
  | @number sign magnitude text stage all isSign run final stops written =>
      cases whole
      have number : IsNumber (sign ++ magnitude) :=
        isNumber_iff.mpr ⟨sign, magnitude, rfl, isSign, stage, run, final⟩
      exact ⟨[], sign ++ magnitude, text, by simp, isBlanks_nil, ⟨number, rfl⟩,
        written⟩

/-- A token that is always written alike stands in front as it is written. -/
theorem Written.split_fixed (word : List Char)
    (listed : (token, word) ∈ fixedTokens)
    (written : Written text (token :: tokens)) :
    ∃ before rest, text = before ++ (word ++ rest) ∧ IsBlanks before ∧
      Written rest tokens := by
  obtain ⟨before, found, rest, rfl, blank, isWord, others⟩ := written.split
  suffices same : found = word from
    ⟨before, rest, by rw [same], blank, others⟩
  simp only [fixedTokens, List.mem_cons, Prod.mk.injEq, List.not_mem_nil,
    or_false] at listed
  rcases listed with ⟨rfl, rfl⟩ | ⟨rfl, rfl⟩ | ⟨rfl, rfl⟩ | ⟨rfl, rfl⟩ |
    ⟨rfl, rfl⟩ | ⟨rfl, rfl⟩ | ⟨rfl, rfl⟩ | ⟨rfl, rfl⟩ | ⟨rfl, rfl⟩ <;>
    simpa [Token.IsWord, fixedTokens] using isWord

theorem isBlanks_of_written (written : Written text []) : IsBlanks text := by
  generalize whole : [] = all at written
  induction written with
  | nil => nofun
  | blank blank written induction =>
      exact List.forall_mem_cons.mpr ⟨blank, induction whole⟩
  | fixed | string | number => cases whole

end Words

/-- There need not be any blanks around a value. -/
theorem Spells.padded {text : List Char} {value : Value}
    (spells : Spells text value) : SpellsPadded text value := by
  simpa using SpellsPadded.pad isBlanks_nil spells isBlanks_nil

section Complete

theorem SpellsElements.delimits {more rest : List Char} {elements : List Value}
    (spells : SpellsElements more elements) (delimits : Delimits rest) :
    Delimits (more ++ rest) := by
  cases spells with
  | nil => exact delimits
  | cons => exact delimits_cons (by decide)

theorem SpellsMembers.delimits {more rest : List Char}
    {members : List (List Char × Value)}
    (spells : SpellsMembers more members) (delimits : Delimits rest) :
    Delimits (more ++ rest) := by
  cases spells with
  | nil => exact delimits
  | cons => exact delimits_cons (by decide)

mutual

/-- The text of a value is written with its tokens, whatever comes next. -/
theorem Spells.written {text : List Char} {value : Value} :
    Spells text value → ∀ {rest : List Char} {tokens : List Token},
      Delimits rest → Written rest tokens →
        Written (text ++ rest) (value.tokens ++ tokens)
  | .null, _, _, _, written => .fixed (by decide) written
  | .yes, _, _, _, written => .fixed (by decide) written
  | .no, _, _, _, written => .fixed (by decide) written
  | .number form, _, _, delimits, written => form.written delimits written
  | .string form, _, _, _, written => by
      rw [List.cons_append, List.append_assoc]
      exact .string form written
  | .emptyArray blank, _, _, _, written => by
      rw [List.cons_append, List.append_assoc]
      exact @Written.fixed _ ['['] _ _ (by decide)
        (blank.written (.fixed (by decide) written))
  | .array first others, rest, tokens, _, written => by
      have closed : Written (']' :: rest) (.closeBracket :: tokens) :=
        @Written.fixed _ [']'] _ _ (by decide) written
      have ends : Delimits (']' :: rest) := delimits_cons (by decide)
      have inside := first.written (others.delimits ends)
        (others.written ends closed)
      rw [Value.tokens_array, listTokens_cons]
      simpa using @Written.fixed .openBracket ['['] _ _ (by decide) inside
  | .emptyObject blank, _, _, _, written => by
      rw [List.cons_append, List.append_assoc]
      exact @Written.fixed _ ['\x7b'] _ _ (by decide)
        (blank.written (.fixed (by decide) written))
  | .object first others, rest, tokens, _, written => by
      have closed : Written ('\x7d' :: rest) (.closeBrace :: tokens) :=
        @Written.fixed _ ['\x7d'] _ _ (by decide) written
      have ends : Delimits ('\x7d' :: rest) := delimits_cons (by decide)
      have inside := first.written (others.delimits ends)
        (others.written ends closed)
      rw [Value.tokens_object, listTokens_cons]
      simpa using @Written.fixed .openBrace ['\x7b'] _ _ (by decide) inside

theorem SpellsPadded.written {text : List Char} {value : Value} :
    SpellsPadded text value → ∀ {rest : List Char} {tokens : List Token},
      Delimits rest → Written rest tokens →
        Written (text ++ rest) (value.tokens ++ tokens)
  | .pad before inside after, _, _, delimits, written => by
      rw [List.append_assoc, List.append_assoc]
      exact before.written
        (inside.written (after.delimits_append delimits)
          (after.written written))

theorem SpellsElements.written {more : List Char} {elements : List Value} :
    SpellsElements more elements → ∀ {rest : List Char} {tokens : List Token},
      Delimits rest → Written rest tokens →
        Written (more ++ rest) (furtherTokens Value.tokens elements ++ tokens)
  | .nil, _, _, _, written => written
  | .cons first others, _, _, delimits, written => by
      have inside := first.written (others.delimits delimits)
        (others.written delimits written)
      simpa [furtherTokens] using
        @Written.fixed .comma [','] _ _ (by decide) inside

theorem SpellsMember.written {text : List Char} {member : List Char × Value} :
    SpellsMember text member → ∀ {rest : List Char} {tokens : List Token},
      Delimits rest → Written rest tokens →
        Written (text ++ rest) (entryTokens member ++ tokens)
  | .pair before form after value, _, _, delimits, written => by
      have valued := value.written delimits written
      have coloned := @Written.fixed .colon [':'] _ _ (by decide) valued
      have keyed := Written.string form (after.written coloned)
      simpa [entryTokens] using before.written keyed

theorem SpellsMembers.written {more : List Char}
    {members : List (List Char × Value)} :
    SpellsMembers more members → ∀ {rest : List Char} {tokens : List Token},
      Delimits rest → Written rest tokens →
        Written (more ++ rest) (furtherTokens entryTokens members ++ tokens)
  | .nil, _, _, _, written => written
  | .cons first others, _, _, delimits, written => by
      have inside := first.written (others.delimits delimits)
        (others.written delimits written)
      simpa [furtherTokens] using
        @Written.fixed .comma [','] _ _ (by decide) inside

end

end Complete

section Sound

/-- Further items are found one by one, up to the token behind them.  Blanks in
front of a comma, or of that token, belong to the item before. -/
theorem split_furtherTokens {α : Type} {tokensOf : α → List Token}
    {spellsItem : List Char → α → Prop}
    {spellsItems : List Char → List α → Prop} (nil : spellsItems [] [])
    (cons : ∀ {text more item items}, spellsItem text item →
      spellsItems more items →
        spellsItems (',' :: (text ++ more)) (item :: items))
    {items : List α} {token : Token} {tokens : List Token}
    (closing : List Char) (listed : (token, closing) ∈ fixedTokens)
    (each : ∀ item ∈ items, ∀ {text tokens},
      Written text (tokensOf item ++ tokens) →
        ∃ word rest, text = word ++ rest ∧
          (∀ {after}, IsBlanks after → spellsItem (word ++ after) item) ∧
          Written rest tokens)
    {text : List Char}
    (written : Written text (furtherTokens tokensOf items ++ token :: tokens)) :
    ∃ after more rest, text = after ++ (more ++ (closing ++ rest)) ∧
      IsBlanks after ∧ spellsItems more items ∧ Written rest tokens := by
  induction items generalizing text with
  | nil =>
      obtain ⟨after, rest, rfl, blank, follows⟩ :=
        written.split_fixed closing listed
      exact ⟨after, [], rest, rfl, blank, nil, follows⟩
  | cons item items induction =>
      obtain ⟨first, further⟩ := List.forall_mem_cons.mp each
      rw [furtherTokens, List.flatMap_cons, List.append_assoc,
        List.cons_append] at written
      obtain ⟨after, next, rfl, blank, begins⟩ :=
        written.split_fixed [','] (by decide)
      obtain ⟨word, next, rfl, spelled, goesOn⟩ := first begins
      obtain ⟨blanks, more, rest, rfl, blanks_blank, others, follows⟩ :=
        induction further goesOn
      exact ⟨after, ',' :: ((word ++ blanks) ++ more), rest, by simp, blank,
        cons (spelled blanks_blank) others, follows⟩

/-- A text begins with a text of the value, behind blanks only, and goes on with
the tokens. -/
def BeginsWith (value : Value) (text : List Char) (tokens : List Token) :
    Prop :=
  ∃ before word rest, text = before ++ (word ++ rest) ∧ IsBlanks before ∧
    Spells word value ∧ Written rest tokens

variable {value : Value} (begin : ∀ {text : List Char} {tokens : List Token},
  Written text (value.tokens ++ tokens) → BeginsWith value text tokens)

include begin

theorem spellsPadded_of_beginsWith {text : List Char} {tokens : List Token}
    (written : Written text (value.tokens ++ tokens)) :
    ∃ word rest, text = word ++ rest ∧
      (∀ {after}, IsBlanks after → SpellsPadded (word ++ after) value) ∧
      Written rest tokens := by
  obtain ⟨before, word, rest, rfl, blank, spells, follows⟩ := begin written
  refine ⟨before ++ word, rest, by simp, ?_, follows⟩
  intro after after_blank
  rw [List.append_assoc]
  exact .pad blank spells after_blank

theorem spellsMember_of_beginsWith {key text : List Char} {tokens : List Token}
    (written : Written text (entryTokens (key, value) ++ tokens)) :
    ∃ word rest, text = word ++ rest ∧
      (∀ {after}, IsBlanks after → SpellsMember (word ++ after) (key, value)) ∧
      Written rest tokens := by
  obtain ⟨before, _, next, rfl, blank, ⟨form, rfl⟩, colon⟩ := written.split
  obtain ⟨after, next, rfl, after_blank, begins⟩ :=
    colon.split_fixed [':'] (by decide)
  obtain ⟨word, rest, rfl, padded, follows⟩ :=
    spellsPadded_of_beginsWith begin begins
  refine ⟨before ++ ('"' :: (key ++ '"' :: (after ++ ':' :: word))), rest,
    by simp, ?_, follows⟩
  intro behind behind_blank
  simpa using SpellsMember.pair blank form after_blank (padded behind_blank)

omit begin

/-- A text that is written with the tokens of a value begins with a text of the
value. -/
theorem Written.split_tokens (value : Value) :
    ∀ {text : List Char} {tokens : List Token},
      Written text (value.tokens ++ tokens) → BeginsWith value text tokens := by
  induction value using Value.induct with
  | null =>
      intro text tokens written
      obtain ⟨before, rest, rfl, blank, follows⟩ :=
        written.split_fixed "null".toList (by decide)
      exact ⟨before, _, rest, rfl, blank, .null, follows⟩
  | bool truth =>
      intro text tokens written
      cases truth with
      | true =>
          obtain ⟨before, rest, rfl, blank, follows⟩ :=
            written.split_fixed "true".toList (by decide)
          exact ⟨before, _, rest, rfl, blank, .yes, follows⟩
      | false =>
          obtain ⟨before, rest, rfl, blank, follows⟩ :=
            written.split_fixed "false".toList (by decide)
          exact ⟨before, _, rest, rfl, blank, .no, follows⟩
  | number literal =>
      intro text tokens written
      obtain ⟨before, _, rest, rfl, blank, ⟨form, rfl⟩, follows⟩ :=
        written.split
      exact ⟨before, _, rest, rfl, blank, .number form, follows⟩
  | string literal =>
      intro text tokens written
      obtain ⟨before, _, rest, rfl, blank, ⟨form, rfl⟩, follows⟩ :=
        written.split
      exact ⟨before, _, rest, rfl, blank, .string form, follows⟩
  | array elements each =>
      intro text tokens written
      rw [Value.tokens_array, List.cons_append] at written
      obtain ⟨before, inside, rfl, blank, begins⟩ :=
        written.split_fixed ['['] (by decide)
      cases elements with
      | nil =>
          obtain ⟨blanks, rest, rfl, blanks_blank, follows⟩ :=
            begins.split_fixed [']'] (by decide)
          exact ⟨before, _, rest, by simp, blank, .emptyArray blanks_blank,
            follows⟩
      | cons element elements =>
          obtain ⟨first, further⟩ := List.forall_mem_cons.mp each
          rw [listTokens_cons, List.append_assoc, List.append_assoc] at begins
          obtain ⟨front, word, next, rfl, front_blank, spells, goesOn⟩ :=
            first begins
          obtain ⟨after, more, rest, rfl, after_blank, others, follows⟩ :=
            split_furtherTokens SpellsElements.nil .cons [']'] (by decide)
              (fun element listed =>
                spellsPadded_of_beginsWith (further element listed)) goesOn
          exact ⟨before, _, rest, by simp, blank,
            .array (.pad front_blank spells after_blank) others, follows⟩
  | object members each =>
      intro text tokens written
      rw [Value.tokens_object, List.cons_append] at written
      obtain ⟨before, inside, rfl, blank, begins⟩ :=
        written.split_fixed ['\x7b'] (by decide)
      cases members with
      | nil =>
          obtain ⟨blanks, rest, rfl, blanks_blank, follows⟩ :=
            begins.split_fixed ['\x7d'] (by decide)
          exact ⟨before, _, rest, by simp, blank, .emptyObject blanks_blank,
            follows⟩
      | cons member members =>
          obtain ⟨first, further⟩ := List.forall_mem_cons.mp each
          rw [listTokens_cons, List.append_assoc, List.append_assoc] at begins
          obtain ⟨word, next, rfl, spelled, goesOn⟩ :=
            spellsMember_of_beginsWith first begins
          obtain ⟨after, more, rest, rfl, after_blank, others, follows⟩ :=
            split_furtherTokens SpellsMembers.nil .cons ['\x7d'] (by decide)
              (fun member listed =>
                spellsMember_of_beginsWith (further member listed)) goesOn
          exact ⟨before, _, rest, by simp, blank,
            .object (spelled after_blank) others, follows⟩

end Sound

/-- The reader finds a value in a text exactly if the text spells it. -/
theorem Value.ofText?_eq_some_iff {text : String} {value : Value} :
    ofText? text = some value ↔ SpellsPadded text.toList value := by
  simp only [ofText?, Option.bind_eq_some_iff, tokens?_eq_some_iff,
    ofTokens?_eq_some_iff, exists_eq_right]
  constructor
  · intro written
    rw [← List.append_nil value.tokens] at written
    obtain ⟨before, word, rest, same, blank, spells, ends⟩ :=
      written.split_tokens
    rw [same]
    exact .pad blank spells (isBlanks_of_written ends)
  · intro spells
    have written := spells.written delimits_nil .nil
    rwa [List.append_nil, List.append_nil] at written

end Json

end MaterialGraph
