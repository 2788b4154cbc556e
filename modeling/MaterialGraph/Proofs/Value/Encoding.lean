import MaterialGraph.Proofs.Value.Grammar

/-!
# The bytes of types and values

What is written for a basic type or value is a word for it, and no other type
or value has bytes that begin in the same way.
-/

namespace MaterialGraph

open ByteStream

/-- The type is not one of another system. -/
def ValueType.IsBasic : ValueType → Prop
  | basic _ => True
  | foreign _ => False

namespace Value

/-- The value is not one of another system. -/
def IsBasic : Value → Prop
  | basic _ => True
  | foreign _ => False

/-- The number of bytes of the text in a value. -/
def textSize : Value → Nat
  | basic (.string content) => content.utf8ByteSize
  | _ => 0

end Value

theorem denotesType_encode {type : ValueType} (known : type.IsBasic) :
    DenotesType type.encode type := by
  cases type with
  | basic type => exact .basic type
  | foreign text => exact known.elim

theorem denotesNumber_encodeBinary32 (number : Binary32) :
    DenotesNumber number.encode number.bits.toNat :=
  denotesNumber_encodeVarint
    (Nat.lt_trans number.bits.toNat_lt_size (by decide))

theorem denotesValue_encode {value : Value} (known : value.IsBasic)
    (small : value.textSize < UInt64.size) :
    DenotesValue value.encode value := by
  cases value with
  | foreign text => exact known.elim
  | basic value =>
      refine .basic ?_
      cases value with
      | bool truth => exact .bool (denotesFlag_encodeFlag truth)
      | int number =>
          exact .int (denotesNumber_encodeVarint
            (Nat.lt_trans number.toUInt32.toNat_lt_size (by decide)))
      | float number => exact .float (denotesNumber_encodeBinary32 number)
      | color red green blue =>
          simp only [BasicValue.encodeContent, List.append_assoc]
          exact .color (denotesNumber_encodeBinary32 red)
            (denotesNumber_encodeBinary32 green)
            (denotesNumber_encodeBinary32 blue)
      | string content => exact .string (denotesText_encodeText small)

theorem DenotesType.isBasic {word : List UInt8} {type : ValueType}
    (denotes : DenotesType word type) : type.IsBasic := by
  cases denotes
  exact trivial

theorem DenotesValue.isBasic {word : List UInt8} {value : Value}
    (denotes : DenotesValue word value) : value.IsBasic := by
  cases denotes
  exact trivial

theorem DenotesValue.textSize_lt {word : List UInt8} {value : Value}
    (denotes : DenotesValue word value) : value.textSize < UInt64.size := by
  cases denotes with
  | basic content =>
      cases content with
      | string text =>
          cases text with
          | counted size => exact size.lt_size
      | bool | int | float | color => exact Nat.zero_lt_succ _

theorem encodeType_append_inj {type type' : ValueType} (known : type.IsBasic)
    (known' : type'.IsBasic) {following following' : List UInt8}
    (same : type.encode ++ following = type'.encode ++ following') :
    type = type' ∧ following = following' := by
  cases type with
  | foreign text => exact known.elim
  | basic type =>
      cases type' with
      | foreign text => exact known'.elim
      | basic type' =>
          simp only [ValueType.encode, List.singleton_append,
            List.cons.injEq] at same
          exact ⟨by rw [BasicType.code_injective same.1], same.2⟩

theorem encodeBinary32_append_inj {number number' : Binary32}
    {following following' : List UInt8}
    (same : number.encode ++ following = number'.encode ++ following') :
    number = number' ∧ following = following' := by
  obtain ⟨sameBits, sameFollowing⟩ := encodeVarint_append_inj same
  cases number
  cases number'
  cases UInt32.toNat_inj.mp sameBits
  exact ⟨rfl, sameFollowing⟩

theorem encodeFlag_append_inj {flag flag' : Bool}
    {following following' : List UInt8}
    (same : encodeFlag flag ++ following = encodeFlag flag' ++ following') :
    flag = flag' ∧ following = following' := by
  cases flag <;> cases flag' <;> simp_all [encodeFlag]

theorem encodeContent_append_inj {value value' : BasicValue}
    (sameType : value.type = value'.type) {following following' : List UInt8}
    (same :
      value.encodeContent ++ following = value'.encodeContent ++ following') :
    value = value' ∧ following = following' := by
  cases value with
  | bool truth =>
      cases value' with
      | bool truth' =>
          obtain ⟨rfl, sameFollowing⟩ := encodeFlag_append_inj same
          exact ⟨rfl, sameFollowing⟩
      | int | float | color | string => cases sameType
  | int number =>
      cases value' with
      | int number' =>
          obtain ⟨sameBits, sameFollowing⟩ := encodeVarint_append_inj same
          cases number
          cases number'
          cases UInt32.toNat_inj.mp sameBits
          exact ⟨rfl, sameFollowing⟩
      | bool | float | color | string => cases sameType
  | float number =>
      cases value' with
      | float number' =>
          obtain ⟨rfl, sameFollowing⟩ := encodeBinary32_append_inj same
          exact ⟨rfl, sameFollowing⟩
      | bool | int | color | string => cases sameType
  | color red green blue =>
      cases value' with
      | color red' green' blue' =>
          simp only [BasicValue.encodeContent, List.append_assoc] at same
          obtain ⟨rfl, sameGreen⟩ := encodeBinary32_append_inj same
          obtain ⟨rfl, sameBlue⟩ := encodeBinary32_append_inj sameGreen
          obtain ⟨rfl, sameFollowing⟩ := encodeBinary32_append_inj sameBlue
          exact ⟨rfl, sameFollowing⟩
      | bool | int | float | string => cases sameType
  | string content =>
      cases value' with
      | string content' =>
          obtain ⟨rfl, sameFollowing⟩ := encodeText_append_inj same
          exact ⟨rfl, sameFollowing⟩
      | bool | int | float | color => cases sameType

theorem encodeValue_append_inj {value value' : Value} (known : value.IsBasic)
    (known' : value'.IsBasic) {following following' : List UInt8}
    (same : value.encode ++ following = value'.encode ++ following') :
    value = value' ∧ following = following' := by
  cases value with
  | foreign text => exact known.elim
  | basic value =>
      cases value' with
      | foreign text => exact known'.elim
      | basic value' =>
          simp only [Value.encode, List.cons_append, List.cons.injEq] at same
          obtain ⟨rfl, sameFollowing⟩ :=
            encodeContent_append_inj (BasicType.code_injective same.1) same.2
          exact ⟨rfl, sameFollowing⟩

end MaterialGraph
