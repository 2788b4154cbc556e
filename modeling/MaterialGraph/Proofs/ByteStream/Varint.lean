import MaterialGraph.Proofs.ByteStream.Shifting
import MaterialGraph.Proofs.ByteStream.Spelling
import Mathlib.Data.Nat.Digits.Lemmas

/-!
# Which bytes are a number

The bytes up to the first one whose high bit is clear are the groups of a
number.  Of all groups for a number the shortest ones are written, and there is
only one choice of them.  What is read depends on the next ten bytes: either
the groups end in time, or the bytes are over before, or it is too late.
-/

namespace MaterialGraph

namespace ByteStream

/-- The high bit of a byte is set: another byte of the number follows. -/
def Announces (byte : UInt8) : Prop := 128 ≤ byte.toNat

instance : DecidablePred Announces :=
  fun byte => inferInstanceAs (Decidable (128 ≤ byte.toNat))

/-- Bytes up to the first one that announces no other. -/
def IsGroups (word : List UInt8) : Prop :=
  ∃ front last, word = front ++ [last] ∧
    (∀ byte ∈ front, Announces byte) ∧ ¬Announces last

/-- The number with the given groups of seven bits, the lowest one first. -/
def groupsValue (word : List UInt8) : Nat :=
  (word.mapIdx fun place byte => byte.toNat % 128 * 128 ^ place).sum

section Groups

variable {byte : UInt8} {word rest : List UInt8} {number : Nat}

theorem isGroups_singleton : IsGroups [byte] ↔ ¬Announces byte := by
  constructor
  · rintro ⟨front, last, same, -, final⟩
    have single : [] ++ [byte] = front ++ [last] := same
    obtain ⟨-, same⟩ := List.append_inj' single rfl
    cases same
    exact final
  · intro final
    exact ⟨[], byte, rfl, nofun, final⟩

theorem isGroups_cons (some : rest ≠ []) :
    IsGroups (byte :: rest) ↔ Announces byte ∧ IsGroups rest := by
  constructor
  · rintro ⟨front, last, same, announce, final⟩
    cases front with
    | nil =>
        cases same
        exact (some rfl).elim
    | cons first front =>
        cases same
        rw [List.forall_mem_cons] at announce
        exact ⟨announce.1, front, last, rfl, announce.2, final⟩
  · rintro ⟨announces, front, last, rfl, announce, final⟩
    exact ⟨byte :: front, last, rfl,
      List.forall_mem_cons.mpr ⟨announces, announce⟩, final⟩

theorem groupsValue_eq_ofDigits (word : List UInt8) :
    groupsValue word =
      Nat.ofDigits 128 (word.map fun byte => byte.toNat % 128) := by
  rw [groupsValue, Nat.ofDigits_eq_sum_mapIdx]
  congr 1
  refine List.mapIdx_eq_iff.mpr fun place => ?_
  simp only [List.getElem?_mapIdx, List.getElem?_map, Option.map_map]
  rfl

theorem groupsValue_cons :
    groupsValue (byte :: rest) =
      byte.toNat % 128 + 128 * groupsValue rest := by
  simp only [groupsValue_eq_ofDigits, List.map_cons, Nat.ofDigits_cons]

/-- Words for numbers are groups, and the number is their sum. -/
theorem denotesGroups_iff :
    DenotesGroups word number ↔ IsGroups word ∧ groupsValue word = number := by
  constructor
  · intro groups
    induction groups with
    | @last byte final =>
        refine ⟨isGroups_singleton.mpr (Nat.not_le_of_lt final), ?_⟩
        rw [groupsValue_cons, Nat.mod_eq_of_lt final]
        rfl
    | @more byte rest higher announces groups induction =>
        rw [isGroups_cons groups.ne_nil, groupsValue_cons, induction.2]
        exact ⟨⟨announces, induction.1⟩, rfl⟩
  · rintro ⟨⟨front, last, rfl, announce, final⟩, rfl⟩
    induction front with
    | nil =>
        have low : last.toNat < 128 := Nat.lt_of_not_le final
        have whole : groupsValue [last] = last.toNat := by
          rw [groupsValue_cons, Nat.mod_eq_of_lt low]
          rfl
        rw [List.nil_append, whole]
        exact .last low
    | cons first front induction =>
        rw [List.forall_mem_cons] at announce
        rw [List.cons_append, groupsValue_cons]
        exact .more announce.1 (induction announce.2)

/-- A word for a number that is no longer than what is written is what is
written. -/
theorem DenotesGroups.eq_encodeVarint_of_length_le
    (groups : DenotesGroups word number)
    (short : word.length ≤ (encodeVarint number).length) :
    word = encodeVarint number := by
  induction groups with
  | @last byte final => rw [encodeVarint, if_pos final, UInt8.ofNat_toNat]
  | @more byte rest higher announces groups induction =>
      rw [encodeVarint] at short ⊢
      by_cases small : byte.toNat % 128 + 128 * higher < 128
      · rw [if_pos small] at short
        exact (groups.ne_nil (by simpa using short)).elim
      · have quotient : (byte.toNat % 128 + 128 * higher) / 128 = higher := by
          omega
        have low : (byte.toNat % 128 + 128 * higher) % 128 + 128 =
            byte.toNat := by
          have inByte : byte.toNat < 256 := byte.toNat_lt
          omega
        rw [if_neg small, quotient] at short
        rw [if_neg small, low, UInt8.ofNat_toNat, quotient,
          ← induction (Nat.le_of_succ_le_succ short)]

end Groups

/-- Of the next `groups` bytes one announces no other, or all of them announce
one and the byte behind them is the one bit for which there is room. -/
def Ends (groups : Nat) (bytes : List UInt8) : Prop :=
  (∃ byte ∈ bytes.take groups, ¬Announces byte) ∨
    (∀ byte ∈ bytes.take groups, Announces byte) ∧
      (bytes[groups]? = some 0 ∨ bytes[groups]? = some 1)

/-- There are no more than `groups` bytes, and all of them announce another. -/
def RunsOut (groups : Nat) (bytes : List UInt8) : Prop :=
  bytes.length ≤ groups ∧ ∀ byte ∈ bytes, Announces byte

section Ahead

variable {groups : Nat} {byte : UInt8} {rest : List UInt8}

theorem ends_zero : Ends 0 (byte :: rest) ↔ byte = 0 ∨ byte = 1 := by
  simp [Ends]

theorem ends_succ :
    Ends (groups + 1) (byte :: rest) ↔ ¬Announces byte ∨ Ends groups rest := by
  by_cases announces : Announces byte <;> simp [Ends, announces]

theorem runsOut_nil : RunsOut groups [] :=
  ⟨Nat.zero_le groups, nofun⟩

theorem not_runsOut_zero : ¬RunsOut 0 (byte :: rest) :=
  fun ended => absurd ended.1 (Nat.not_succ_le_zero _)

theorem runsOut_succ :
    RunsOut (groups + 1) (byte :: rest) ↔
      Announces byte ∧ RunsOut groups rest := by
  simp [RunsOut, and_left_comm]

theorem RunsOut.not_ends {bytes : List UInt8} (ended : RunsOut groups bytes) :
    ¬Ends groups bytes := by
  obtain ⟨short, announce⟩ := ended
  rintro (⟨byte, early, final⟩ | ⟨-, last⟩)
  · exact final (announce byte (List.mem_of_mem_take early))
  · simp [List.getElem?_eq_none short] at last

end Ahead

section Reading

variable {reader : Reader}

theorem readGroups_of_rest_nil (ended : reader.rest = []) (groups : Nat) :
    readGroups (groups + 1) reader = .error .unexpectedEnd reader := by
  have outside : reader.bytes.size ≤ reader.position := by
    simpa [Reader.rest] using ended
  have refused : readByte reader = .error .unexpectedEnd reader := by
    rw [readByte, Array.getElem?_eq_none outside]
  simp only [readGroups_succ, Bind.bind, EStateM.bind, refused]

theorem readGroups_of_rest_cons {byte : UInt8} {rest : List UInt8}
    (ahead : reader.rest = byte :: rest) (groups : Nat) :
    readGroups (groups + 1) reader =
      (if groups = 0 ∧ 1 < byte.toNat % 128 then
        throw .overflow
      else if byte.toNat < 128 then
        return byte.toNat % 128
      else do
        let higher ← readGroups groups
        return byte.toNat % 128 + 128 * higher : Read Nat) (reader.advance 1) := by
  have next : readByte reader = .ok byte (reader.advance 1) :=
    (accepts_readByte reader byte _).mpr ⟨[byte], by simp [ahead], rfl, rfl⟩
  simp only [readGroups_succ, Bind.bind, EStateM.bind, next]

/-- Groups are read if they end in time.  Otherwise the reader comes to the end
of the bytes, or finds that there is no room. -/
theorem readGroups_cases (groups : Nat) (reader : Reader) :
    (Ends groups reader.rest ∧ ∃ number left,
      readGroups (groups + 1) reader = .ok number left) ∨
    (RunsOut groups reader.rest ∧ ∃ left,
      readGroups (groups + 1) reader = .error .unexpectedEnd left) ∨
    (¬Ends groups reader.rest ∧ ¬RunsOut groups reader.rest ∧ ∃ left,
      readGroups (groups + 1) reader = .error .overflow left) := by
  induction groups generalizing reader with
  | zero =>
      cases ahead : reader.rest with
      | nil =>
          exact .inr (.inl ⟨runsOut_nil, _, readGroups_of_rest_nil ahead 0⟩)
      | cons byte rest =>
          have single : byte = 0 ∨ byte = 1 ↔ byte.toNat ≤ 1 := by
            rw [← UInt8.toNat_inj, ← UInt8.toNat_inj, UInt8.toNat_zero,
              UInt8.toNat_one]
            omega
          rw [readGroups_of_rest_cons ahead, ends_zero, single]
          by_cases tooMuch : 1 < byte.toNat % 128
          · rw [if_pos ⟨rfl, tooMuch⟩]
            exact .inr (.inr ⟨by omega, not_runsOut_zero, _, rfl⟩)
          · rw [if_neg (by simp [tooMuch])]
            by_cases final : byte.toNat < 128
            · rw [if_pos final]
              exact .inl ⟨by omega, _, _, rfl⟩
            · rw [if_neg final]
              exact .inr (.inr ⟨by omega, not_runsOut_zero, _, rfl⟩)
  | succ groups induction =>
      cases ahead : reader.rest with
      | nil =>
          exact .inr (.inl ⟨runsOut_nil, _, readGroups_of_rest_nil ahead _⟩)
      | cons byte rest =>
          have behind : (reader.advance 1).rest = rest := by simp [ahead]
          have later := induction (reader.advance 1)
          rw [behind] at later
          rw [readGroups_of_rest_cons ahead, ends_succ, runsOut_succ,
            if_neg (by simp)]
          by_cases final : byte.toNat < 128
          · rw [if_pos final]
            exact .inl ⟨.inl (Nat.not_le_of_lt final), _, _, rfl⟩
          · have announces : Announces byte := Nat.le_of_not_lt final
            rw [if_neg final]
            simp only [announces, not_true, false_or, true_and]
            rcases later with ⟨ends, number, left, read⟩ |
              ⟨ended, left, read⟩ | ⟨late, more, left, read⟩
            · refine .inl ⟨ends, byte.toNat % 128 + 128 * number, left, ?_⟩
              simp only [Bind.bind, EStateM.bind, read]
              rfl
            · refine .inr (.inl ⟨ended, left, ?_⟩)
              simp only [Bind.bind, EStateM.bind, read]
            · refine .inr (.inr ⟨late, more, left, ?_⟩)
              simp only [Bind.bind, EStateM.bind, read]

theorem readVarint_eq (reader : Reader) :
    readVarint reader =
      match readGroups 10 reader with
      | .ok number left => .ok (UInt64.ofNat number) left
      | .error reason left => .error reason left := by
  rw [readVarint_eq_map]
  simp only [Functor.map, EStateM.map, maxGroups]
  cases readGroups 10 reader <;> rfl

theorem readVarint_cases (reader : Reader) :
    (Ends 9 reader.rest ∧ ¬RunsOut 9 reader.rest ∧ ∃ number left,
      readVarint reader = .ok number left) ∨
    (¬Ends 9 reader.rest ∧ RunsOut 9 reader.rest ∧ ∃ left,
      readVarint reader = .error .unexpectedEnd left) ∨
    (¬Ends 9 reader.rest ∧ ¬RunsOut 9 reader.rest ∧ ∃ left,
      readVarint reader = .error .overflow left) := by
  rw [readVarint_eq]
  rcases readGroups_cases 9 reader with ⟨ends, number, left, read⟩ |
    ⟨ended, left, read⟩ | ⟨late, more, left, read⟩
  · have notEnded : ¬RunsOut 9 reader.rest := fun ended => ended.not_ends ends
    exact .inl ⟨ends, notEnded, _, left, by rw [read]⟩
  · exact .inr (.inl ⟨ended.not_ends, ended, left, by rw [read]⟩)
  · exact .inr (.inr ⟨late, more, left, by rw [read]⟩)

theorem readVarint_iff (reader : Reader) :
    ((∃ number left, readVarint reader = .ok number left) ↔
      Ends 9 reader.rest) ∧
    ((∃ left, readVarint reader = .error .unexpectedEnd left) ↔
      RunsOut 9 reader.rest) ∧
    ((∃ left, readVarint reader = .error .overflow left) ↔
      ¬Ends 9 reader.rest ∧ ¬RunsOut 9 reader.rest) := by
  rcases readVarint_cases reader with ⟨ends, notEnded, number, left, read⟩ |
    ⟨late, ended, left, read⟩ | ⟨late, notEnded, left, read⟩
  · simp [read, ends, notEnded]
  · simp [read, late, ended]
  · simp [read, late, notEnded]

/-- What is read is the sum of the groups that are ahead. -/
theorem readVarint_eq_ok {number : UInt64} {left : Reader}
    (read : readVarint reader = .ok number left) :
    ∃ word, word <+: reader.rest ∧ IsGroups word ∧
      number.toNat = groupsValue word ∧ left = reader.advance word.length := by
  obtain ⟨word, ahead, denotes, rfl⟩ :=
    (accepts_readVarint reader number left).mp read
  obtain ⟨groups, value⟩ := denotesGroups_iff.mp denotes.groups
  exact ⟨word, ahead, groups, value.symm, rfl⟩

end Reading

/-- A number of 64 bits is written in the shortest groups that there are for
it.  Wherever a reader stands, it reads a number exactly if the groups end in
time, which is then the sum of the groups, comes to the end exactly if the bytes
are over before, and otherwise finds the number too large.  The same holds for
numbers that are taken apart and put together in machine words. -/
theorem varint_written_shortest_read_exactly :
    (∀ number : UInt64,
      shiftOut number = encodeVarint number.toNat ∧
      IsGroups (encodeVarint number.toNat) ∧
      groupsValue (encodeVarint number.toNat) = number.toNat ∧
      1 ≤ (encodeVarint number.toNat).length ∧
      (encodeVarint number.toNat).length ≤ 10 ∧
      ((encodeVarint number.toNat).getLast? = some 0 → number = 0) ∧
      ∀ word, IsGroups word → groupsValue word = number.toNat →
        word = encodeVarint number.toNat ∨
          (encodeVarint number.toNat).length < word.length) ∧
    ∀ reader : Reader,
      shiftIn 0 0 reader = readVarint reader ∧
      ((∃ number left, readVarint reader = .ok number left) ↔
        Ends 9 reader.rest) ∧
      (∀ number left, readVarint reader = .ok number left →
        ∃ word, word <+: reader.rest ∧ IsGroups word ∧
          number.toNat = groupsValue word ∧
            left = reader.advance word.length) ∧
      ((∃ left, readVarint reader = .error .unexpectedEnd left) ↔
        RunsOut 9 reader.rest) ∧
      ((∃ left, readVarint reader = .error .overflow left) ↔
        ¬Ends 9 reader.rest ∧ ¬RunsOut 9 reader.rest) := by
  constructor
  · intro number
    have denotes := denotesNumber_encodeVarint number.toNat_lt_size
    obtain ⟨groups, value⟩ := denotesGroups_iff.mp denotes.groups
    refine ⟨shiftOut_eq_encodeVarint number, groups, value,
      List.length_pos_iff.mpr denotes.groups.ne_nil, denotes.length_le, ?_, ?_⟩
    · intro lastZero
      rcases denotes.groups.encodeVarint_eq_iff.mp rfl with single | notZero
      · obtain ⟨last, same⟩ := List.length_eq_one_iff.mp single
        rw [same] at value lastZero
        cases lastZero
        exact UInt64.toNat_inj.mp value.symm
      · exact (notZero lastZero).elim
    · intro word wordGroups wordValue
      have others := denotesGroups_iff.mpr ⟨wordGroups, wordValue⟩
      rcases Nat.lt_or_ge (encodeVarint number.toNat).length word.length with
        longer | short
      · exact .inr longer
      · exact .inl (others.eq_encodeVarint_of_length_le short)
  · intro reader
    obtain ⟨ends, ended, late⟩ := readVarint_iff reader
    rw [shiftIn_eq_readVarint]
    exact ⟨rfl, ends, fun _ _ => readVarint_eq_ok, ended, late⟩

/-- Behind nine bytes there is room for one bit. -/
example : readVarint (.ofList (List.replicate 9 0xff ++ [2])) =
    .error .overflow ⟨#[255, 255, 255, 255, 255, 255, 255, 255, 255, 2], 10⟩ :=
  rfl

end ByteStream

end MaterialGraph
