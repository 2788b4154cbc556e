import MaterialGraph.ByteStream.Writer
import MaterialGraph.Proofs.ByteStream.Language

/-!
# Words for numbers

A number is written in groups of seven bits, least significant group first.
The reader accepts up to ten groups whose value fits 64 bits, also if groups at
the top are zero.  The writer takes the shortest of these words.
-/

namespace MaterialGraph

namespace ByteStream

/-- One or more groups, of which every one but the last announces another. -/
inductive DenotesGroups : List UInt8 → Nat → Prop
  | last {byte : UInt8} (final : byte.toNat < 128) :
      DenotesGroups [byte] byte.toNat
  | more {byte : UInt8} {rest : List UInt8} {higher : Nat}
      (announces : 128 ≤ byte.toNat) (groups : DenotesGroups rest higher) :
      DenotesGroups (byte :: rest) (byte.toNat % 128 + 128 * higher)

/-- At most ten groups whose value is a number of 64 bits. -/
structure DenotesNumber (word : List UInt8) (number : Nat) : Prop where
  groups : DenotesGroups word number
  length_le : word.length ≤ maxGroups
  lt_size : number < UInt64.size

/-- The bound on what `groups` whole groups and one more bit can hold. -/
def groupLimit : (groups : Nat) → Nat
  | 0 => 2
  | groups + 1 => 128 * groupLimit groups

theorem two_le_groupLimit (groups : Nat) : 2 ≤ groupLimit groups := by
  induction groups with
  | zero => exact Nat.le_refl 2
  | succ groups induction =>
      simp only [groupLimit]
      omega

theorem DenotesGroups.ne_nil {word : List UInt8} {number : Nat}
    (groups : DenotesGroups word number) : word ≠ [] := by
  cases groups <;> simp

/-- The end of the groups of a number can be told from the groups. -/
theorem DenotesGroups.append_inj {word word' : List UInt8}
    {number number' : Nat}
    (groups : DenotesGroups word number) (groups' : DenotesGroups word' number')
    {following following' : List UInt8}
    (same : word ++ following = word' ++ following') :
    number = number' ∧ following = following' := by
  induction groups generalizing word' number' with
  | @last byte final =>
      cases groups' with
      | last final' =>
          simp only [List.singleton_append, List.cons.injEq] at same
          exact ⟨by rw [same.1], same.2⟩
      | more announces' groups' =>
          simp only [List.cons_append, List.cons.injEq] at same
          rw [same.1] at final
          omega
  | @more byte rest higher announces groups induction =>
      cases groups' with
      | last final' =>
          simp only [List.cons_append, List.cons.injEq] at same
          rw [same.1] at announces
          omega
      | more announces' groups' =>
          simp only [List.cons_append, List.cons.injEq] at same
          obtain ⟨sameHigher, sameFollowing⟩ := induction groups' same.2
          exact ⟨by rw [same.1, sameHigher], sameFollowing⟩

theorem accepts_readByte :
    Accepts readByte (fun word byte => word = [byte]) := by
  intro reader byte left
  have first : reader.rest[0]? = reader.bytes[reader.position]? := by
    simp [Reader.rest]
  unfold readByte
  rw [← first]
  cases reader.rest with
  | nil => simp
  | cons head tail =>
      constructor
      · intro result
        cases result
        exact ⟨[byte], by simp, rfl, rfl⟩
      · intro denoted
        rcases denoted with ⟨word, ahead, rfl, rfl⟩
        have same : byte = head := by simpa using ahead
        subst same
        rfl

/-- The words for what is left of a number whose first byte has been read. -/
private def groupsAfter (groups : Nat) (rest : WordLanguage Nat)
    (byte : UInt8) :
    WordLanguage Nat := fun word number =>
  (groups = 0 → byte.toNat % 128 ≤ 1) ∧
    ((byte.toNat < 128 ∧ word = [] ∧ number = byte.toNat) ∨
      (128 ≤ byte.toNat ∧ ∃ higher, rest word higher ∧
        number = byte.toNat % 128 + 128 * higher))

private theorem accepts_readGroups_succ {groups : Nat} {rest : WordLanguage Nat}
    (accepts : Accepts (readGroups groups) rest) :
    Accepts (readGroups (groups + 1))
      (WordLanguage.andThen (fun word byte => word = [byte])
        (groupsAfter groups rest)) := by
  refine accepts_readByte.bind fun byte => ?_
  -- the last group that may follow has room for one bit only
  by_cases tooMuch : groups = 0 ∧ 1 < byte.toNat % 128
  · simp only [if_pos tooMuch]
    refine (Accepts.throw .overflow).congr fun word number => ?_
    have refused : ¬(groups = 0 → byte.toNat % 128 ≤ 1) := by omega
    simp [WordLanguage.empty, groupsAfter, refused]
  · have fits : groups = 0 → byte.toNat % 128 ≤ 1 := by omega
    simp only [if_neg tooMuch]
    by_cases final : byte.toNat < 128
    · simp only [if_pos final]
      refine (Accepts.pure _).congr fun word number => ?_
      have notMore : ¬128 ≤ byte.toNat := by omega
      have whole : byte.toNat % 128 = byte.toNat := Nat.mod_eq_of_lt final
      rw [whole] at fits ⊢
      simp only [WordLanguage.known, groupsAfter, whole, final, notMore,
        true_and, false_and, or_false, and_iff_right fits]
    · simp only [if_neg final]
      refine (accepts.bind_pure _).congr fun word number => ?_
      have more : 128 ≤ byte.toNat := by omega
      simp only [groupsAfter, final, more, true_and, false_and, false_or,
        and_iff_right fits]

private theorem andThen_readByte_iff {following : UInt8 → WordLanguage Nat}
    {word : List UInt8} {number : Nat} :
    WordLanguage.andThen (fun word byte => word = [byte]) following word
      number ↔
      ∃ byte rest, word = byte :: rest ∧ following byte rest number := by
  constructor
  · intro accepted
    rcases accepted with ⟨head, tail, byte, rfl, rfl, rest⟩
    exact ⟨byte, tail, rfl, rest⟩
  · intro denoted
    rcases denoted with ⟨byte, tail, rfl, rest⟩
    exact ⟨[byte], tail, byte, rfl, rfl, rest⟩

theorem accepts_readGroups (groups : Nat) :
    Accepts (readGroups (groups + 1)) (fun word number =>
      DenotesGroups word number ∧ word.length ≤ groups + 1 ∧
        number < groupLimit groups) := by
  induction groups with
  | zero =>
      have none : Accepts (readGroups 0) WordLanguage.empty :=
        Accepts.throw .overflow
      refine (accepts_readGroups_succ none).congr ?_
      intro word number
      rw [andThen_readByte_iff]
      constructor
      · intro accepted
        rcases accepted with
          ⟨byte, rest, rfl, fits,
            ⟨final, rfl, rfl⟩ | ⟨-, higher, impossible, -⟩⟩
        · exact ⟨.last final, by simp, by simp [groupLimit]; omega⟩
        · exact impossible.elim
      · intro denoted
        rcases denoted with ⟨denotes, short, small⟩
        cases denotes with
        | @last byte final =>
            refine ⟨byte, [], rfl, ?_, .inl ⟨final, rfl, rfl⟩⟩
            simp [groupLimit] at small
            omega
        | more announces denotes =>
            simp at short
            exact (denotes.ne_nil short).elim
  | succ groups induction =>
      refine (accepts_readGroups_succ induction).congr ?_
      intro word number
      rw [andThen_readByte_iff]
      constructor
      · intro accepted
        rcases accepted with
          ⟨byte, rest, rfl, -,
            ⟨final, rfl, rfl⟩ | ⟨announces, higher, ⟨denotes, short,
            small⟩, rfl⟩⟩
        · have enough := two_le_groupLimit groups
          refine ⟨.last final, by simp, ?_⟩
          simp only [groupLimit]
          omega
        · refine ⟨.more announces denotes, by simpa using short, ?_⟩
          simp only [groupLimit]
          omega
      · intro denoted
        rcases denoted with ⟨denotes, short, small⟩
        cases denotes with
        | @last byte final =>
            exact ⟨byte, [], rfl, by simp, .inl ⟨final, rfl, rfl⟩⟩
        | @more byte rest higher announces denotes =>
            refine ⟨byte, rest, rfl, by simp,
              .inr ⟨announces, higher, ⟨denotes, ?_, ?_⟩, rfl⟩⟩
            · simpa using short
            · simp only [groupLimit] at small
              omega

theorem accepts_readVarint :
    Accepts readVarint
      (fun word number => DenotesNumber word number.toNat) := by
  refine ((accepts_readGroups 9).bind_pure UInt64.ofNat).congr ?_
  intro word number
  have limit : groupLimit 9 = UInt64.size := rfl
  constructor
  · intro accepted
    rcases accepted with ⟨read, ⟨groups, short, small⟩, rfl⟩
    rw [limit] at small
    rw [UInt64.toNat_ofNat_of_lt' small]
    exact ⟨groups, short, small⟩
  · intro denoted
    rcases denoted with ⟨groups, short, small⟩
    exact ⟨number.toNat, ⟨groups, short, small⟩, UInt64.ofNat_toNat.symm⟩

/-- A number may be written in more groups than it needs. -/
example : (readVarint.run (.ofList [0x85, 0x80, 0x00, 0xff])) =
    .ok 5 ⟨#[0x85, 0x80, 0x00, 0xff], 3⟩ := by
  rfl

theorem denotesGroups_encodeVarint (number : Nat) :
    DenotesGroups (encodeVarint number) number := by
  induction number using encodeVarint.induct with
  | case1 number small =>
      rw [encodeVarint, if_pos small]
      have byte : (UInt8.ofNat number).toNat = number :=
        UInt8.toNat_ofNat_of_lt (by simp [UInt8.size]; omega)
      have last :
          DenotesGroups [UInt8.ofNat number] (UInt8.ofNat number).toNat :=
        .last (by omega)
      rwa [byte] at last
  | case2 number large induction =>
      rw [encodeVarint, if_neg large]
      have byte : (UInt8.ofNat (number % 128 + 128)).toNat =
          number % 128 + 128 :=
        UInt8.toNat_ofNat_of_lt (by simp [UInt8.size]; omega)
      have announces :
          128 ≤ (UInt8.ofNat (number % 128 + 128)).toNat := by omega
      have whole : (number % 128 + 128) % 128 + 128 * (number / 128) =
          number := by
        omega
      have more := DenotesGroups.more announces induction
      rwa [byte, whole] at more

theorem length_encodeVarint_le (groups : Nat) {number : Nat}
    (small : number < groupLimit groups) :
    (encodeVarint number).length ≤ groups + 1 := by
  induction groups generalizing number with
  | zero =>
      simp only [groupLimit] at small
      rw [encodeVarint, if_pos (by omega)]
      simp
  | succ groups induction =>
      rw [encodeVarint]
      split
      · simp
      · simp only [groupLimit] at small
        have smaller : number / 128 < groupLimit groups := by omega
        simpa using induction smaller

theorem denotesNumber_encodeVarint {number : Nat}
    (small : number < UInt64.size) :
    DenotesNumber (encodeVarint number) number :=
  ⟨denotesGroups_encodeVarint number, length_encodeVarint_le 9 small, small⟩

theorem encodeVarint_append_inj {number number' : Nat}
    {following following' : List UInt8}
    (same :
      encodeVarint number ++ following = encodeVarint number' ++ following') :
    number = number' ∧ following = following' :=
  (denotesGroups_encodeVarint number).append_inj
    (denotesGroups_encodeVarint number') same

end ByteStream

end MaterialGraph
