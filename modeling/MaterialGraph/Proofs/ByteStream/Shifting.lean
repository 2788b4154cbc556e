import MaterialGraph.Proofs.ByteStream.Number
import Mathlib.Data.Nat.Bitwise

/-!
# Numbers in machine words

A number of 64 bits fits a machine word.  When it is written its groups are
taken off the low end of the word, and when it is read they are put in, each
seven bits further up.  A group is never put where the word has ended, and it
finds all the places free that it takes.  So words give the same bytes and the
same answers as numbers of any size, and no bit is lost.
-/

namespace MaterialGraph

namespace ByteStream

section Bits

variable {byte : UInt8} {word : UInt64}

theorem toNat_lowGroup : (word &&& 0x7f).toUInt8.toNat = word.toNat % 128 := by
  have mask : (0x7f : UInt64).toNat = 2 ^ 7 - 1 := rfl
  rw [UInt64.toNat_toUInt8, UInt64.toNat_and, mask,
    Nat.and_two_pow_sub_one_eq_mod]
  omega

theorem toNat_shiftRight_seven : (word >>> 7).toNat = word.toNat / 128 := by
  rw [UInt64.toNat_shiftRight]
  exact Nat.shiftRight_eq_div_pow word.toNat 7

theorem shiftRight_seven_eq_zero_iff : word >>> 7 = 0 ↔ word.toNat < 128 := by
  rw [← UInt64.toNat_inj, toNat_shiftRight_seven, UInt64.toNat_zero]
  omega

theorem toNat_announce (group : byte.toNat < 128) :
    (byte ||| 0x80).toNat = byte.toNat + 128 := by
  have bit : (0x80 : UInt8).toNat = 2 ^ 7 * 1 := rfl
  rw [UInt8.toNat_or, bit, Nat.or_comm, ← Nat.two_pow_add_eq_or_of_lt group,
    Nat.add_comm]

theorem toNat_group : (byte &&& 0x7f).toUInt64.toNat = byte.toNat % 128 := by
  have mask : (0x7f : UInt8).toNat = 2 ^ 7 - 1 := rfl
  rw [UInt8.toNat_toUInt64, UInt8.toNat_and, mask,
    Nat.and_two_pow_sub_one_eq_mod]

theorem highBit_eq_zero_iff : byte &&& 0x80 = 0 ↔ byte.toNat < 128 := by
  have small : byte.toNat < 256 := byte.toNat_lt
  have bit : byte.toNat &&& 128 = (byte.toNat.testBit 7).toNat * 128 :=
    Nat.and_two_pow byte.toNat 7
  have high : byte.toNat.testBit 7 = decide (128 ≤ byte.toNat) := by
    rw [Nat.testBit_eq_decide_div_mod_eq, decide_eq_decide]
    omega
  rw [← UInt8.toNat_inj, UInt8.toNat_and]
  change byte.toNat &&& 128 = 0 ↔ _
  rw [bit, high]
  by_cases announces : 128 ≤ byte.toNat
  · simp [announces]
  · simp [announces, Nat.lt_of_not_le announces]

/-- A group that is put above what is in the word is added to it. -/
theorem toNat_or_shiftLeft {place : Fin 64} {group : UInt64}
    (free : word.toNat < 2 ^ place.val)
    (room : group.toNat * 2 ^ place.val < 2 ^ 64) :
    (word ||| group <<< UInt64.ofNat place).toNat =
      word.toNat + 2 ^ place.val * group.toNat := by
  have inWord : (UInt64.ofNat place).toNat % 64 = place.val := by
    rw [UInt64.toNat_ofNat_of_lt' (by simp [UInt64.size]; omega)]
    exact Nat.mod_eq_of_lt place.isLt
  rw [UInt64.toNat_or, UInt64.toNat_shiftLeft, inWord, Nat.shiftLeft_eq,
    Nat.mod_eq_of_lt room, Nat.mul_comm, Nat.or_comm,
    ← Nat.two_pow_add_eq_or_of_lt free, Nat.add_comm]

end Bits

/-- Take the groups off a word, the lowest one first. -/
def shiftOut (word : UInt64) : List UInt8 :=
  let group := (word &&& 0x7f).toUInt8
  if word >>> 7 = 0 then
    [group]
  else
    (group ||| 0x80) :: shiftOut (word >>> 7)
termination_by word.toNat
decreasing_by
  rename_i more
  rw [shiftRight_seven_eq_zero_iff] at more
  rw [toNat_shiftRight_seven]
  omega

/-- Read groups and put them into a word from a place on.  There is room for
one bit only at the last place. -/
def shiftIn (place : Fin 64) (word : UInt64) : Read UInt64 := do
  let byte ← readByte
  let group := (byte &&& 0x7f).toUInt64
  if place.val = 63 ∧ 1 < group then
    throw .overflow
  else
    let extended := word ||| group <<< UInt64.ofNat place
    if byte &&& 0x80 = 0 then
      return extended
    else if inside : place.val + 7 < 64 then
      shiftIn ⟨place.val + 7, inside⟩ extended
    else
      throw .overflow
termination_by 64 - place.val

/-- The groups that are taken off a word are those of its number. -/
theorem shiftOut_eq_encodeVarint (word : UInt64) :
    shiftOut word = encodeVarint word.toNat := by
  induction word using shiftOut.induct with
  | case1 word last =>
      have small := shiftRight_seven_eq_zero_iff.mp last
      have group : (word &&& 0x7f).toUInt8 = UInt8.ofNat word.toNat := by
        rw [← UInt8.toNat_inj, toNat_lowGroup, UInt8.toNat_ofNat']
        omega
      rw [shiftOut, encodeVarint, if_pos last, if_pos small, group]
  | case2 word more induction =>
      have large := mt shiftRight_seven_eq_zero_iff.mpr more
      have group : (word &&& 0x7f).toUInt8 ||| 0x80 =
          UInt8.ofNat (word.toNat % 128 + 128) := by
        have low : (word &&& 0x7f).toUInt8.toNat < 128 := by
          rw [toNat_lowGroup]
          omega
        rw [← UInt8.toNat_inj, toNat_announce low, toNat_lowGroup,
          UInt8.toNat_ofNat']
        omega
      rw [shiftOut, encodeVarint, if_neg more, if_neg large, group, induction,
        toNat_shiftRight_seven]

/-- One group is put into a word, if what follows it is. -/
private theorem shiftIn_eq_map_of_rest {groups : Nat} {place : Fin 64}
    {word : UInt64} (left : place.val + 7 * groups = 63)
    (free : word.toNat < 2 ^ place.val)
    (rest : ∀ extended : UInt64, extended.toNat < 2 ^ (place.val + 7) →
      (if inside : place.val + 7 < 64 then
        shiftIn ⟨place.val + 7, inside⟩ extended
      else
        throw .overflow) =
      (fun higher =>
        UInt64.ofNat (extended.toNat + 2 ^ (place.val + 7) * higher)) <$>
          readGroups groups) :
    shiftIn place word =
      (fun higher => UInt64.ofNat (word.toNat + 2 ^ place.val * higher)) <$>
        readGroups (groups + 1) := by
  rw [shiftIn, readGroups_succ, map_bind]
  refine bind_congr fun byte => ?_
  have sameLimit : (place.val = 63 ∧ 1 < (byte &&& 0x7f).toUInt64) ↔
      (groups = 0 ∧ 1 < byte.toNat % 128) := by
    rw [UInt64.lt_iff_toNat_lt, toNat_group]
    exact and_congr (by omega) Iff.rfl
  by_cases tooMuch : groups = 0 ∧ 1 < byte.toNat % 128
  · simp only [if_pos tooMuch, if_pos (sameLimit.mpr tooMuch)]
    rfl
  have room : byte.toNat % 128 * 2 ^ place.val < 2 ^ 64 := by
    rcases Nat.eq_zero_or_pos groups with none | some
    · have last : place.val = 63 := by omega
      rw [last]
      omega
    · have low : 2 ^ place.val ≤ 2 ^ 56 :=
        Nat.pow_le_pow_right (by decide) (by omega)
      have group : byte.toNat % 128 ≤ 127 := by omega
      exact Nat.lt_of_le_of_lt (Nat.mul_le_mul group low) (by decide)
  have extended : (word ||| (byte &&& 0x7f).toUInt64 <<<
      UInt64.ofNat place).toNat =
      word.toNat + 2 ^ place.val * (byte.toNat % 128) := by
    rw [toNat_or_shiftLeft free (by rwa [toNat_group]), toNat_group]
  simp only [if_neg tooMuch, if_neg (mt sameLimit.mp tooMuch)]
  by_cases final : byte.toNat < 128
  · simp only [if_pos final, if_pos (highBit_eq_zero_iff.mpr final), map_pure]
    rw [← extended, UInt64.ofNat_toNat]
  · simp only [if_neg final, if_neg (mt highBit_eq_zero_iff.mp final)]
    have next : 2 ^ (place.val + 7) = 2 ^ place.val * 128 := Nat.pow_add 2 _ 7
    have stillFree : (word ||| (byte &&& 0x7f).toUInt64 <<<
        UInt64.ofNat place).toNat < 2 ^ (place.val + 7) := by
      have group : byte.toNat % 128 ≤ 127 := by omega
      have bound := Nat.mul_le_mul_left (2 ^ place.val) group
      rw [extended, next]
      omega
    rw [rest _ stillFree, extended, next, map_eq_pure_bind, map_bind]
    refine bind_congr fun higher => ?_
    rw [map_pure, Nat.mul_add, Nat.add_assoc, Nat.mul_assoc]

/-- Groups that are put into a word from a place on make the number with the
same groups, if the word is empty from that place on. -/
theorem shiftIn_eq_map_readGroups {groups : Nat} {place : Fin 64}
    {word : UInt64} (left : place.val + 7 * groups = 63)
    (free : word.toNat < 2 ^ place.val) :
    shiftIn place word =
      (fun higher => UInt64.ofNat (word.toNat + 2 ^ place.val * higher)) <$>
        readGroups (groups + 1) := by
  induction groups generalizing place word with
  | zero =>
      refine shiftIn_eq_map_of_rest left free fun extended _ => ?_
      rw [dif_neg (by omega)]
      rfl
  | succ groups induction =>
      refine shiftIn_eq_map_of_rest left free fun extended stillFree => ?_
      have inside : place.val + 7 < 64 := by omega
      have fewer : (⟨place.val + 7, inside⟩ : Fin 64).val + 7 * groups = 63 := by
        dsimp only
        omega
      rw [dif_pos inside, induction fewer stillFree]

/-- Ten groups that are put into an empty word are read as a number. -/
theorem shiftIn_eq_readVarint : shiftIn 0 0 = readVarint := by
  have places : (0 : Fin 64).val + 7 * 9 = 63 := rfl
  have empty : (0 : UInt64).toNat < 2 ^ (0 : Fin 64).val := by decide
  rw [shiftIn_eq_map_readGroups places empty, readVarint_eq_map]
  simp [maxGroups]

end ByteStream

end MaterialGraph
