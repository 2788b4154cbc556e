import MaterialGraph.Proofs.ByteStream.Text

/-!
# Answers to a word that lies ahead

Where a word lies ahead a reader finds an object and stops right behind the
word, or it refuses to read.  What a composed reader answers to a composed word
is what its first part answers, if that is a refusal, and else what the second
part answers to the rest: the first refusal counts.
-/

namespace MaterialGraph

namespace ByteStream

/-- The answer of a reader wherever a word lies ahead: an object, or a reason
for which it is refused. -/
def Answers {α : Type} (read : Read α) (word : List UInt8) (object : α) :
    (refusal? : Option DecodeError) → Prop
  | none => ∀ reader : Reader, word <+: reader.rest →
      read reader = .ok object (reader.advance word.length)
  | some reason => ∀ reader : Reader, word <+: reader.rest →
      ∃ left, read reader = .error reason left

namespace Answers

variable {α β : Type} {read : Read α} {word : List UInt8} {object : α}

theorem ofAccepts {language : WordLanguage α} (accepts : Accepts read language)
    (objectWord : language word object) : Answers read word object none := by
  intro reader ahead
  exact (accepts reader object _).mpr ⟨word, ahead, objectWord, rfl⟩

theorem pure (object : α) : Answers (pure object) [] object none :=
  .ofAccepts (.pure object) ⟨rfl, rfl⟩

theorem throw (reason : DecodeError) :
    Answers (throw reason) word object (some reason) := by
  intro reader ahead
  exact ⟨reader, rfl⟩

/-- A refusal does not depend on what follows. -/
theorem refuseAppend {reason : DecodeError} {found : α}
    (answers : Answers read word object (some reason)) (tail : List UInt8) :
    Answers read (word ++ tail) found (some reason) := by
  intro reader ahead
  exact answers reader ((List.prefix_append word tail).trans ahead)

theorem refuseBind {reason : DecodeError} {found : β} (next : α → Read β)
    (answers : Answers read word object (some reason)) :
    Answers (read >>= next) word found (some reason) := by
  intro reader ahead
  obtain ⟨left, refused⟩ := answers reader ahead
  exact ⟨left, by simp only [Bind.bind, EStateM.bind, refused]⟩

theorem acceptBind {next : α → Read β} {tail : List UInt8} {found : β}
    {refusal? : Option DecodeError} (answers : Answers read word object none)
    (nextAnswers : Answers (next object) tail found refusal?) :
    Answers (read >>= next) (word ++ tail) found refusal? := by
  have following : ∀ reader : Reader, word ++ tail <+: reader.rest →
      read reader = .ok object (reader.advance word.length) ∧
        tail <+: (reader.advance word.length).rest := by
    intro reader ahead
    constructor
    · exact answers reader ((List.prefix_append word tail).trans ahead)
    · obtain ⟨others, same⟩ := ahead
      rw [Reader.rest_advance, ← same, List.append_assoc, List.drop_left]
      exact List.prefix_append tail others
  cases refusal? with
  | none =>
      intro reader ahead
      obtain ⟨accepted, tailAhead⟩ := following reader ahead
      have result := nextAnswers _ tailAhead
      simp only [Bind.bind, EStateM.bind, accepted]
      rw [result, Reader.advance_advance, List.length_append]
  | some reason =>
      intro reader ahead
      obtain ⟨accepted, tailAhead⟩ := following reader ahead
      simp only [Bind.bind, EStateM.bind, accepted]
      exact nextAnswers _ tailAhead

/-- The first refusal counts.  Nothing has to be known of the second reader if
the first one refuses. -/
theorem bind {next : α → Read β} {tail : List UInt8} {found : β}
    {first? second? : Option DecodeError}
    (answers : Answers read word object first?)
    (nextAnswers : first? = none →
      Answers (next object) tail found second?) :
    Answers (read >>= next) (word ++ tail) found (first?.or second?) := by
  cases first? with
  | some reason =>
      have refused : Answers (read >>= next) word found (some reason) :=
        answers.refuseBind next
      exact refused.refuseAppend tail
  | none => exact answers.acceptBind (nextAnswers rfl)

theorem map {refusal? : Option DecodeError}
    (answers : Answers read word object refusal?) (change : α → β) :
    Answers (change <$> read) word (change object) refusal? := by
  have composed : Answers (change <$> read) (word ++ []) (change object)
      (refusal?.or none) :=
    answers.bind fun _ => Answers.pure (change object)
  rw [List.append_nil, Option.or_none] at composed
  exact composed

/-- Read from the start of some bytes. -/
theorem refusal_of_ofList_append {reason : DecodeError}
    (answers : Answers read word object (some reason))
    (following : List UInt8) :
    ∃ left, read (.ofList (word ++ following)) = .error reason left := by
  apply answers
  rw [Reader.rest_ofList]
  exact List.prefix_append word following

end Answers

/-- Why a length or a count is refused: it does not fit 64 bits. -/
def oversize? (size : Nat) : Option DecodeError :=
  if size < UInt64.size then none else some .overflow

theorem oversize?_eq_none_iff {size : Nat} :
    oversize? size = none ↔ size < UInt64.size := by
  simp [oversize?]

theorem answers_readByte (byte : UInt8) : Answers readByte [byte] byte none :=
  .ofAccepts accepts_readByte rfl

/-- Where one group is left it has room for one bit only. -/
theorem answers_readGroups_one {byte : UInt8} (object : Nat)
    (large : 2 ≤ byte.toNat) :
    Answers (readGroups 1) [byte] object (some .overflow) := by
  have none : Answers (readGroups 0) [] object (some .overflow) :=
    .throw .overflow
  refine Answers.acceptBind (answers_readByte byte) ?_
  dsimp only
  split
  · exact .throw .overflow
  · rename_i room
    have more : ¬byte.toNat < 128 := by omega
    rw [if_neg more]
    exact none.refuseBind _

/-- A number that is too large for the groups that are left is refused. -/
theorem answers_readGroups_of_le (groups : Nat) {number : Nat} (object : Nat)
    (large : groupLimit groups ≤ number) :
    Answers (readGroups (groups + 1)) (encodeVarint number) object
      (some .overflow) := by
  have announced : (UInt8.ofNat (number % 128 + 128)).toNat =
      number % 128 + 128 :=
    UInt8.toNat_ofNat_of_lt (by simp [UInt8.size]; omega)
  induction groups generalizing number object with
  | zero =>
      simp only [groupLimit] at large
      rw [encodeVarint]
      by_cases small : number < 128
      · rw [if_pos small]
        have single : (UInt8.ofNat number).toNat = number :=
          UInt8.toNat_ofNat_of_lt (by simp [UInt8.size]; omega)
        apply answers_readGroups_one
        omega
      · rw [if_neg small]
        have first : Answers (readGroups 1)
            [UInt8.ofNat (number % 128 + 128)] object (some .overflow) := by
          apply answers_readGroups_one
          omega
        exact first.refuseAppend (encodeVarint (number / 128))
  | succ groups induction =>
      have enough := two_le_groupLimit groups
      simp only [groupLimit] at large
      have more : ¬number < 128 := by omega
      have higher : Answers (readGroups (groups + 1))
          (encodeVarint (number / 128)) 0 (some .overflow) := by
        apply induction 0
        · omega
        · exact UInt8.toNat_ofNat_of_lt (by simp [UInt8.size]; omega)
      rw [encodeVarint, if_neg more]
      apply (answers_readByte _).acceptBind
      dsimp only
      rw [if_neg (by omega), if_neg (by omega)]
      exact higher.refuseBind _

theorem answers_readVarint (number : Nat) :
    Answers readVarint (encodeVarint number) (UInt64.ofNat number)
      (oversize? number) := by
  unfold oversize?
  split
  · rename_i small
    apply Answers.ofAccepts accepts_readVarint
    rw [UInt64.toNat_ofNat_of_lt' small]
    exact denotesNumber_encodeVarint small
  · rename_i large
    have limit : groupLimit 9 ≤ number := Nat.le_of_not_lt large
    exact (answers_readGroups_of_le 9 0 limit).refuseBind _

theorem answers_readText (text : String) :
    Answers readText (encodeText text) text
      (oversize? text.utf8ByteSize) := by
  by_cases small : text.utf8ByteSize < UInt64.size
  · rw [oversize?_eq_none_iff.mpr small]
    exact .ofAccepts accepts_readText (denotesText_encodeText small)
  · have count := answers_readVarint text.utf8ByteSize
    rw [oversize?, if_neg small] at count ⊢
    have refused : Answers readText (encodeVarint text.utf8ByteSize) text
        (some .overflow) :=
      count.refuseBind _
    exact refused.refuseAppend (textBytes text)

end ByteStream

end MaterialGraph
