import MaterialGraph.Proofs.Json.Grammar
import MaterialGraph.Proofs.Json.Literal
import Mathlib.Data.List.Forall2

/-!
# What literals denote

Resolving the escapes of a string finds the characters that it denotes, and
fails only if it denotes none.  A literal is a number of 64 bits exactly if it
is written with the decimal digits of one.
-/

namespace MaterialGraph

namespace Json

section Strings

variable {character short : Char} {literal rest text : List Char}

theorem mem_shortEscapes_iff :
    (short, character) ∈ shortEscapes ↔
      shortEscape? short = some character := by
  constructor
  · intro listed
    simp only [shortEscapes, List.mem_cons, Prod.mk.injEq, List.not_mem_nil,
      or_false] at listed
    rcases listed with ⟨rfl, rfl⟩ | ⟨rfl, rfl⟩ | ⟨rfl, rfl⟩ | ⟨rfl, rfl⟩ |
      ⟨rfl, rfl⟩ | ⟨rfl, rfl⟩ | ⟨rfl, rfl⟩ | ⟨rfl, rfl⟩ <;> rfl
  · intro resolved
    unfold shortEscape? at resolved
    split at resolved <;> cases resolved <;> decide

theorem isHighSurrogate_iff {unit : Nat} :
    isHighSurrogate unit ↔ 0xd800 ≤ unit ∧ unit < 0xdc00 := by
  simp [isHighSurrogate]

theorem isLowSurrogate_iff {unit : Nat} :
    isLowSurrogate unit ↔ 0xdc00 ≤ unit ∧ unit < 0xe000 := by
  simp [isLowSurrogate]

/-- A code unit is half of a pair, or outside the range of surrogates. -/
theorem not_surrogate_iff {unit : Nat} :
    isHighSurrogate unit = false ∧ isLowSurrogate unit = false ↔
      unit < 0xd800 ∨ 0xe000 ≤ unit := by
  simp [isHighSurrogate, isLowSurrogate]
  omega

/-- The escapes of a literal that denotes something resolve to that. -/
theorem unescape?_of_denotes (denotes : Denotes literal text) :
    unescape? literal = some text := by
  induction denotes with
  | nil => rfl
  | plain _ notBackslash _ _ induction =>
      rw [unescape?_plain notBackslash, induction, Option.bind_some]
  | @short short character rest text listed _ induction =>
      have notUnit : short ≠ 'u' := by
        rintro rfl
        exact absurd (mem_shortEscapes_iff.mp listed) nofun
      rw [unescape?_short notUnit, mem_shortEscapes_iff.mp listed,
        Option.bind_some, induction, Option.bind_some]
  | unit code outside _ induction =>
      obtain ⟨notHigh, notLow⟩ := not_surrogate_iff.mpr outside
      simp [unescape?, code, notHigh, notLow, induction]
  | pair high highMin highMax low lowMin lowMax _ induction =>
      have isHigh := isHighSurrogate_iff.mpr ⟨highMin, highMax⟩
      have isLow := isLowSurrogate_iff.mpr ⟨lowMin, lowMax⟩
      simp [unescape?, high, low, isHigh, isLow, induction, surrogatePair]

theorem eq_of_length_four {digits : List Char} (count : digits.length = 4) :
    ∃ first second third fourth, digits = [first, second, third, fourth] := by
  match digits, count with
  | [first, second, third, fourth], _ => exact ⟨_, _, _, _, rfl⟩

theorem IsLiteral.of_unit {first second third fourth : Char}
    (form : IsLiteral
      ('\\' :: 'u' :: first :: second :: third :: fourth :: rest)) :
    IsLiteral rest := by
  generalize whole : '\\' :: 'u' :: first :: second :: third :: fourth :: rest =
    literal at form
  cases form with
  | nil => cases whole
  | plain _ notBackslash =>
      cases whole
      exact (notBackslash rfl).elim
  | short listed =>
      cases whole
      exact absurd listed (by decide)
  | unit count _ form =>
      obtain ⟨_, _, _, _, rfl⟩ := eq_of_length_four count
      cases whole
      exact form

/-- A literal whose escapes resolve denotes what they resolve to. -/
theorem denotes_of_unescape? (form : IsLiteral literal)
    (resolved : unescape? literal = some text) : Denotes literal text := by
  -- a pair of surrogates takes two escapes at once, so the length is what
  -- decreases
  induction size : literal.length using Nat.strongRecOn
    generalizing literal text
  rename_i size induction
  subst size
  cases form with
  | nil =>
      cases resolved
      exact .nil
  | @plain character rest notQuote notBackslash printable form =>
      rw [unescape?_plain notBackslash, Option.bind_eq_some_iff] at resolved
      obtain ⟨others, found, same⟩ := resolved
      cases same
      exact .plain notQuote notBackslash printable
        (induction _ (Nat.lt_succ_self _) form found rfl)
  | @short short rest listed form =>
      have notUnit : short ≠ 'u' := by
        rintro rfl
        exact absurd listed (by decide)
      rw [unescape?_short notUnit, Option.bind_eq_some_iff] at resolved
      obtain ⟨character, denoted, resolved⟩ := resolved
      rw [Option.bind_eq_some_iff] at resolved
      obtain ⟨others, found, same⟩ := resolved
      cases same
      have shorter : rest.length < rest.length + 2 := by omega
      exact .short (mem_shortEscapes_iff.mpr denoted)
        (induction _ shorter form found rfl)
  | @unit digits rest count areHex form =>
      obtain ⟨first, second, third, fourth, rfl⟩ := eq_of_length_four count
      simp only [List.cons_append, List.nil_append, unescape?,
        Option.bind_eq_bind, Option.bind_eq_some_iff] at resolved
      obtain ⟨unit, code, resolved⟩ := resolved
      by_cases isHigh : isHighSurrogate unit
      · rw [if_pos isHigh] at resolved
        split at resolved
        case h_2 => cases resolved
        rename_i first' second' third' fourth' rest
        obtain ⟨low, code', resolved⟩ := Option.bind_eq_some_iff.mp resolved
        split at resolved
        case isFalse => cases resolved
        rename_i isLow
        obtain ⟨others, found, same⟩ := Option.bind_eq_some_iff.mp resolved
        cases same
        obtain ⟨highMin, highMax⟩ := isHighSurrogate_iff.mp isHigh
        obtain ⟨lowMin, lowMax⟩ := isLowSurrogate_iff.mp isLow
        have shorter : rest.length < rest.length + 12 := by omega
        exact .pair code highMin highMax code' lowMin lowMax
          (induction _ shorter form.of_unit found rfl)
      · rw [if_neg isHigh] at resolved
        split at resolved
        case isTrue => cases resolved
        rename_i isLow
        obtain ⟨others, found, same⟩ := Option.bind_eq_some_iff.mp resolved
        cases same
        have outside := not_surrogate_iff.mp
          ⟨Bool.eq_false_iff.mpr isHigh, Bool.eq_false_iff.mpr isLow⟩
        have shorter : rest.length < rest.length + 6 := by omega
        exact .unit code outside (induction _ shorter form found rfl)

end Strings

section Numbers

variable {digit : Char} {literal : List Char}

theorem digit_bounds (isDigit : digit.isDigit) :
    '0'.toNat ≤ digit.toNat ∧ digit.toNat - '0'.toNat < 10 := by
  obtain ⟨low, high⟩ : '0'.toNat ≤ digit.toNat ∧ digit.toNat ≤ '9'.toNat := by
    simpa [Char.isDigit, Char.le_def, UInt32.le_iff_toNat_le] using isDigit
  have last : '9'.toNat = '0'.toNat + 9 := rfl
  exact ⟨low, by omega⟩

theorem toDigits_digit (isDigit : digit.isDigit) :
    Nat.toDigits 10 (digit.toNat - '0'.toNat) = [digit] := by
  obtain ⟨low, small⟩ := digit_bounds isDigit
  have written : ∀ value < 10,
      Nat.digitChar value = Char.ofNat (value + '0'.toNat) := by
    decide
  rw [Nat.toDigits_of_lt_base small, written _ small, Nat.sub_add_cancel low,
    Char.ofNat_toNat]

/-- Digits behind those of a positive number are the last ones of a larger
number. -/
theorem toDigits_foldl {number : Nat} (positive : 0 < number)
    (digits : AreDigits literal) :
    Nat.toDigits 10 (literal.foldl
        (fun number digit => number * 10 + (digit.toNat - '0'.toNat)) number) =
      Nat.toDigits 10 number ++ literal := by
  induction literal generalizing number with
  | nil => exact (List.append_nil _).symm
  | cons digit literal induction =>
      obtain ⟨first, others⟩ := List.forall_mem_cons.mp digits
      obtain ⟨-, small⟩ := digit_bounds first
      have one := toDigits_digit first
      rw [List.foldl_cons, induction (by omega) others, Nat.mul_comm,
        ← Nat.toDigits_append_toDigits (by decide) positive small, one,
        List.append_assoc, List.singleton_append]

theorem natural?_eq_some_iff {number : Nat} :
    natural? literal = some number ↔ literal = Nat.toDigits 10 number := by
  constructor
  · intro spelled
    unfold natural? at spelled
    split at spelled
    · cases spelled
    · cases spelled
      rfl
    · cases spelled
    · rename_i notEmpty _ noZero
      split at spelled
      case isFalse => cases spelled
      rename_i digits
      cases spelled
      cases literal with
      | nil => exact (notEmpty rfl).elim
      | cons digit others =>
          obtain ⟨first, further⟩ :=
            List.forall_mem_cons.mp (List.all_eq_true.mp digits)
          obtain ⟨low, -⟩ := digit_bounds first
          have positive : 0 < 0 * 10 + (digit.toNat - '0'.toNat) := by
            have notZero : digit.toNat ≠ '0'.toNat := fun same =>
              noZero others (by rw [Char.toNat_inj.mp same])
            omega
          rw [digitsValue, List.foldl_cons, toDigits_foldl positive further,
            Nat.zero_mul, Nat.zero_add, toDigits_digit first,
            List.singleton_append]
  · rintro rfl
    exact natural?_toDigits number

/-- A literal is a number of 64 bits exactly if it is written with the decimal
digits of one. -/
theorem long?_eq_some_iff {number : UInt64} :
    long? literal = some number ↔
      literal = Nat.toDigits 10 number.toNat := by
  constructor
  · intro spelled
    unfold long? at spelled
    split at spelled
    case h_2 => cases spelled
    rename_i value natural
    split at spelled
    case isFalse => cases spelled
    rename_i fits
    cases spelled
    rw [natural?_eq_some_iff.mp natural, UInt64.toNat_ofNat_of_lt' fits]
  · rintro rfl
    exact long?_toDigits number

/-- The decimal digits of a number spell a number. -/
theorem isNumber_toDigits (number : Nat) :
    IsNumber (Nat.toDigits 10 number) := by
  have whole : IsWhole (Nat.toDigits 10 number) := by
    by_cases zero : number = 0
    · subst zero
      exact .inl rfl
    · have digits := List.all_eq_true.mp (all_isDigit_toDigits number)
      exact .inr ⟨⟨Nat.toDigits_ne_nil, digits⟩,
        head?_toDigits_ne (Nat.pos_of_ne_zero zero)⟩
  exact ⟨[], _, rfl, by simp, _, [], (List.append_nil _).symm, whole, [], [],
    rfl, .inl rfl, .inl rfl⟩

end Numbers

section Members

variable {members : List (List Char × Value)} {named : List (String × Value)}

/-- The members of an object in order, with the names that their keys denote. -/
def Names : List (List Char × Value) → List (String × Value) → Prop :=
  List.Forall₂ fun member entry =>
    Denotes member.1 entry.1.toList ∧ member.2 = entry.2

/-- The values of all members with one name, in order. -/
def valuesUnder (name : String) (named : List (String × Value)) : List Value :=
  (named.filter (·.1 == name)).map (·.2)

theorem SpellsMember.isLiteral {text : List Char} {member : List Char × Value} :
    SpellsMember text member → IsLiteral member.1
  | .pair _ form _ _ => form

theorem SpellsMembers.isLiteral {more : List Char}
    {members : List (List Char × Value)} :
    SpellsMembers more members → ∀ member ∈ members, IsLiteral member.1
  | .nil => List.forall_mem_nil _
  | .cons first others =>
      List.forall_mem_cons.mpr ⟨first.isLiteral, others.isLiteral⟩

/-- Every key of a spelled object has the form of a string. -/
theorem SpellsPadded.isLiteral {text : List Char}
    (spells : SpellsPadded text (.object members)) :
    ∀ member ∈ members, IsLiteral member.1 := by
  obtain ⟨-, spells, -⟩ := spells
  cases spells with
  | emptyObject => exact List.forall_mem_nil _
  | object first others =>
      exact List.forall_mem_cons.mpr ⟨first.isLiteral, others.isLiteral⟩

/-- The keys of an object are resolved exactly if they denote names. -/
theorem resolveKeys?_eq_some_iff
    (forms : ∀ member ∈ members, IsLiteral member.1) :
    resolveKeys? members = some named ↔ Names members named := by
  induction members generalizing named with
  | nil => simp [resolveKeys?, Names, eq_comm]
  | cons member members induction =>
      obtain ⟨form, forms⟩ := List.forall_mem_cons.mp forms
      have others := fun named => @induction named forms
      simp only [resolveKeys?, List.mapM_cons, Option.bind_eq_bind,
        Option.bind_eq_some_iff, Names, List.forall₂_cons_left_iff] at others ⊢
      constructor
      · rintro ⟨entry, ⟨key, resolved, found⟩, rest, restNamed, same⟩
        cases found
        cases same
        refine ⟨_, rest, ⟨?_, rfl⟩, (others rest).mp restNamed, rfl⟩
        rw [String.toList_ofList]
        exact denotes_of_unescape? form resolved
      · rintro ⟨⟨key, value⟩, rest, ⟨denotes, rfl⟩, restNamed, rfl⟩
        refine ⟨_, ⟨_, unescape?_of_denotes denotes, rfl⟩, rest,
          (others rest).mpr restNamed, ?_⟩
        rw [String.ofList_toList]
        rfl

/-- Part of the members has part of the names. -/
theorem Names.sublist {part : List (List Char × Value)}
    (sub : part.Sublist members) (names : Names members named) :
    ∃ entries, entries.Sublist named ∧ Names part entries := by
  induction sub generalizing named with
  | slnil =>
      exact ⟨[], List.nil_sublist _, .nil⟩
  | cons member _ induction =>
      cases names with
      | cons _ others =>
          obtain ⟨entries, sub, names⟩ := induction others
          exact ⟨entries, sub.cons _, names⟩
  | cons_cons member _ induction =>
      cases names with
      | @cons _ entry _ _ first others =>
          obtain ⟨entries, sub, names⟩ := induction others
          exact ⟨entry :: entries, sub.cons_cons entry, .cons first names⟩

theorem eq_of_denotes {literal : List Char} {left right : String}
    (denotes : Denotes literal left.toList)
    (denotes' : Denotes literal right.toList) : left = right := by
  have same := (unescape?_of_denotes denotes).symm.trans
    (unescape?_of_denotes denotes')
  exact String.toList_inj.mp (Option.some.inj same)

/-- Two members with one name have two values under it. -/
theorem two_le_length_valuesUnder {name : String}
    {first second : List Char × Value} (names : Names members named)
    (both : [first, second].Sublist members)
    (firstName : Denotes first.1 name.toList)
    (secondName : Denotes second.1 name.toList) :
    2 ≤ (valuesUnder name named).length := by
  obtain ⟨entries, sub, names⟩ := names.sublist both
  cases names with
  | @cons _ entry _ _ found others =>
      cases others with
      | @cons _ entry' _ _ found' others =>
          cases others
          have same := eq_of_denotes found.1 firstName
          have same' := eq_of_denotes found'.1 secondName
          have values := ((sub.filter (·.1 == name)).map Prod.snd).length_le
          simpa [same, same', valuesUnder] using values

end Members

end Json

end MaterialGraph
