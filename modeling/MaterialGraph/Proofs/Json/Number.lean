import MaterialGraph.Json.Token
import MaterialGraph.Proofs.Json.Grammar

/-!
# Which literals are numbers

The stages through which a number is read accept the numbers of the grammar and
nothing else.
-/

namespace MaterialGraph

namespace Json

section Joins

variable {first first' second : List Char → Prop} {character : Char}
  {rest : List Char}

theorem joins_nil : Joins first second [] ↔ first [] ∧ second [] := by
  constructor
  · rintro ⟨front, back, same, ofFirst, ofSecond⟩
    obtain ⟨rfl, rfl⟩ := List.append_eq_nil_iff.mp same.symm
    exact ⟨ofFirst, ofSecond⟩
  · rintro ⟨ofFirst, ofSecond⟩
    exact ⟨[], [], rfl, ofFirst, ofSecond⟩

/-- The first character belongs to the first part, unless that part is empty. -/
theorem joins_cons :
    Joins first second (character :: rest) ↔
      (first [] ∧ second (character :: rest)) ∨
        Joins (fun front => first (character :: front)) second rest := by
  constructor
  · rintro ⟨front, back, same, ofFirst, ofSecond⟩
    cases front with
    | nil => exact .inl ⟨ofFirst, same ▸ ofSecond⟩
    | cons head front =>
        cases same
        exact .inr ⟨front, back, rfl, ofFirst, ofSecond⟩
  · rintro (⟨ofFirst, ofSecond⟩ | ⟨front, back, rfl, ofFirst, ofSecond⟩)
    · exact ⟨[], _, rfl, ofFirst, ofSecond⟩
    · exact ⟨character :: front, back, rfl, ofFirst, ofSecond⟩

theorem joins_and {fact : Prop} :
    Joins (fun front => fact ∧ first front) second rest ↔
      fact ∧ Joins first second rest := by
  simp only [Joins, and_assoc, and_left_comm (b := fact), exists_and_left]

theorem joins_or :
    Joins (fun front => first front ∨ first' front) second rest ↔
      Joins first second rest ∨ Joins first' second rest := by
  simp only [Joins, or_and_right, and_or_left, exists_or]

theorem joins_eq_nil : Joins (· = []) second rest ↔ second rest := by
  constructor
  · rintro ⟨_, back, rfl, rfl, ofSecond⟩
    exact ofSecond
  · intro ofSecond
    exact ⟨[], rest, rfl, rfl, ofSecond⟩

end Joins

section Derivatives

/-! What may follow the first character of each part of a number. -/

variable {second : List Char → Prop} {character : Char} {rest : List Char}

theorem areDigits_nil : AreDigits [] :=
  nofun

theorem areDigits_cons :
    AreDigits (character :: rest) ↔ character.isDigit ∧ AreDigits rest :=
  List.forall_mem_cons

theorem not_isDigits_nil : ¬IsDigits [] :=
  fun digits => digits.1 rfl

theorem isDigits_cons :
    IsDigits (character :: rest) ↔ character.isDigit ∧ AreDigits rest := by
  simp [IsDigits, areDigits_cons]

theorem isWhole_cons :
    IsWhole (character :: rest) ↔ (character = '0' ∧ rest = []) ∨
      ((character.isDigit ∧ character ≠ '0') ∧ AreDigits rest) := by
  simp [IsWhole, isDigits_cons, and_right_comm]

theorem isFraction_cons :
    IsFraction (character :: rest) ↔ character = '.' ∧ IsDigits rest := by
  simp [IsFraction, and_assoc]

theorem isSigned_cons :
    IsSigned (character :: rest) ↔ IsDigits (character :: rest) ∨
      ((character = '+' ∨ character = '-') ∧ IsDigits rest) := by
  have sign : ∀ front, character :: front ∈ [[], ['+'], ['-']] ↔
      (character = '+' ∨ character = '-') ∧ front = [] := by
    intro front
    simp [or_and_right]
  rw [IsSigned, joins_cons]
  simp only [sign, joins_and, joins_eq_nil]
  simp

theorem isExponent_cons :
    IsExponent (character :: rest) ↔
      (character = 'e' ∨ character = 'E') ∧ IsSigned rest := by
  simp [IsExponent, and_assoc]

theorem joins_areDigits_cons :
    Joins AreDigits second (character :: rest) ↔ second (character :: rest) ∨
      (character.isDigit ∧ Joins AreDigits second rest) := by
  simp only [joins_cons, areDigits_nil, true_and, areDigits_cons, joins_and]

theorem joins_isDigits_cons :
    Joins IsDigits second (character :: rest) ↔
      character.isDigit ∧ Joins AreDigits second rest := by
  simp only [joins_cons, not_isDigits_nil, false_and, false_or, isDigits_cons,
    joins_and]

theorem joins_isWhole_cons :
    Joins IsWhole second (character :: rest) ↔
      (character = '0' ∧ second rest) ∨
        ((character.isDigit ∧ character ≠ '0') ∧
          Joins AreDigits second rest) := by
  have some : ¬IsWhole [] := by simp [IsWhole, IsDigits]
  simp only [joins_cons, some, false_and, false_or, isWhole_cons, joins_or,
    joins_and, joins_eq_nil]

theorem joins_isFraction_cons :
    Joins IsFraction second (character :: rest) ↔
      second (character :: rest) ∨
        (character = '.' ∧ Joins IsDigits second rest) := by
  have none : IsFraction [] := .inl rfl
  simp only [joins_cons, none, true_and, isFraction_cons, joins_and]

end Derivatives

namespace NumberStage

/-- From a stage on, the characters lead to a stage where a number may end. -/
def Accepts (stage : NumberStage) (literal : List Char) : Prop :=
  ∃ last, literal.foldlM next? stage = some last ∧ last.isFinal

variable {stage : NumberStage} {character : Char} {rest literal : List Char}

theorem accepts_nil : stage.Accepts [] ↔ stage.isFinal := by
  simp [Accepts]

theorem accepts_cons :
    stage.Accepts (character :: rest) ↔
      match stage.next? character with
      | some later => later.Accepts rest
      | none => False := by
  cases next : stage.next? character <;> simp [Accepts, next]

theorem accepts_exponent : exponent.Accepts literal ↔ AreDigits literal := by
  induction literal with
  | nil => simp [accepts_nil, isFinal, areDigits_nil]
  | cons character rest induction =>
      rw [accepts_cons, areDigits_cons, ← induction]
      by_cases digit : character.isDigit <;> simp [next?, digit]

theorem accepts_sign : sign.Accepts literal ↔ IsDigits literal := by
  cases literal with
  | nil => simp [accepts_nil, isFinal, not_isDigits_nil]
  | cons character rest =>
      rw [accepts_cons, isDigits_cons, ← accepts_exponent]
      by_cases digit : character.isDigit <;> simp [next?, digit]

theorem accepts_mark : mark.Accepts literal ↔ IsSigned literal := by
  cases literal with
  | nil => simp [accepts_nil, isFinal, IsSigned, joins_nil, not_isDigits_nil]
  | cons character rest =>
      rw [accepts_cons, isSigned_cons, isDigits_cons, ← accepts_exponent,
        ← accepts_sign]
      by_cases isSign : character = '+' ∨ character = '-'
      · have notDigit : character.isDigit = false := by
          rcases isSign with rfl | rfl <;> rfl
        simp [next?, isSign, notDigit]
      · by_cases digit : character.isDigit <;> simp [next?, digit, isSign]

theorem accepts_fraction :
    fraction.Accepts literal ↔ Joins AreDigits IsExponent literal := by
  induction literal with
  | nil => simp [accepts_nil, isFinal, joins_nil, areDigits_nil, IsExponent]
  | cons character rest induction =>
      rw [accepts_cons, joins_areDigits_cons, isExponent_cons, ← induction,
        ← accepts_mark]
      by_cases isMark : character = 'e' ∨ character = 'E'
      · have notDigit : character.isDigit = false := by
          rcases isMark with rfl | rfl <;> rfl
        simp [next?, isMark, notDigit]
      · by_cases digit : character.isDigit <;> simp [next?, digit, isMark]

theorem accepts_point :
    point.Accepts literal ↔ Joins IsDigits IsExponent literal := by
  cases literal with
  | nil => simp [accepts_nil, isFinal, joins_nil, not_isDigits_nil]
  | cons character rest =>
      rw [accepts_cons, joins_isDigits_cons, ← accepts_fraction]
      by_cases digit : character.isDigit <;> simp [next?, digit]

theorem accepts_zero :
    zero.Accepts literal ↔ Joins IsFraction IsExponent literal := by
  cases literal with
  | nil => simp [accepts_nil, isFinal, joins_nil, IsFraction, IsExponent]
  | cons character rest =>
      rw [accepts_cons, joins_isFraction_cons, isExponent_cons, ← accepts_mark,
        ← accepts_point]
      by_cases isPoint : character = '.'
      · simp [next?, isPoint]
      · by_cases isMark : character = 'e' ∨ character = 'E' <;>
          simp [next?, isPoint, isMark]

theorem accepts_whole :
    whole.Accepts literal ↔
      Joins AreDigits (Joins IsFraction IsExponent) literal := by
  induction literal with
  | nil =>
      simp [accepts_nil, isFinal, joins_nil, areDigits_nil, IsFraction,
        IsExponent]
  | cons character rest induction =>
      rw [joins_areDigits_cons, ← accepts_zero, ← induction, accepts_cons,
        accepts_cons]
      by_cases digit : character.isDigit
      · have notPoint : character ≠ '.' := by
          rintro rfl
          cases digit
        have notMark : ¬(character = 'e' ∨ character = 'E') := by
          rintro (rfl | rfl) <;> cases digit
        simp [next?, digit, notPoint, notMark]
      · simp [next?, digit]

theorem accepts_minus :
    minus.Accepts literal ↔
      Joins IsWhole (Joins IsFraction IsExponent) literal := by
  cases literal with
  | nil => simp [accepts_nil, isFinal, joins_nil, IsWhole, IsDigits]
  | cons character rest =>
      rw [joins_isWhole_cons, ← accepts_zero, ← accepts_whole, accepts_cons]
      by_cases isZero : character = '0'
      · simp [next?, isZero]
      · by_cases digit : character.isDigit <;> simp [next?, digit, isZero]

end NumberStage

/-- Behind the sign, if there is one, a number is read like any other. -/
theorem isNumber_iff {literal : List Char} :
    IsNumber literal ↔
      Joins (· ∈ [[], ['-']]) NumberStage.minus.Accepts literal := by
  simp only [IsNumber, Joins, NumberStage.accepts_minus]

end Json

end MaterialGraph
