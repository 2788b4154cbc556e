import MaterialGraph.Proofs.ByteStream.Text
import MaterialGraph.Value.Wire

/-!
# Words for types and values

A type is the byte of its code.  A value is the code of its type and then its
content, whose form depends on the type.  There are no words for types and
values of other systems, nor for values of the opaque types.
-/

namespace MaterialGraph

open ByteStream

/-- The code of a basic type. -/
inductive DenotesType : List UInt8 → ValueType → Prop
  | basic (type : BasicType) : DenotesType [type.code] (.basic type)

/-- The content of a value.  Numbers are written as the integers below `2 ^ 32`
that have the same bits. -/
inductive DenotesContent : List UInt8 → BasicValue → Prop
  | bool {word : List UInt8} {truth : Bool} (flag : DenotesFlag word truth) :
      DenotesContent word (.bool truth)
  | int {word : List UInt8} {number : Int32}
      (bits : DenotesNumber word number.toUInt32.toNat) :
      DenotesContent word (.int number)
  | float {word : List UInt8} {number : Binary32}
      (bits : DenotesNumber word number.bits.toNat) :
      DenotesContent word (.float number)
  | color {redWord greenWord blueWord : List UInt8} {red green blue : Binary32}
      (redBits : DenotesNumber redWord red.bits.toNat)
      (greenBits : DenotesNumber greenWord green.bits.toNat)
      (blueBits : DenotesNumber blueWord blue.bits.toNat) :
      DenotesContent (redWord ++ (greenWord ++ blueWord))
        (.color red green blue)
  | string {word : List UInt8} {content : String}
      (text : DenotesText word content) :
      DenotesContent word (.string content)

/-- The code of a type and the content of a value of that type. -/
inductive DenotesValue : List UInt8 → Value → Prop
  | basic {word : List UInt8} {value : BasicValue}
      (content : DenotesContent word value) :
      DenotesValue (value.type.code :: word) (.basic value)

theorem BasicType.ofCode?_eq_some_iff {code : UInt8} {type : BasicType} :
    BasicType.ofCode? code = some type ↔ code = type.code := by
  constructor
  · intro known
    unfold BasicType.ofCode? at known
    split at known <;> cases known
    all_goals
      rename_i number
      exact UInt8.toNat_inj.mp number
  · intro same
    subst same
    cases type <;> rfl

theorem BasicType.code_injective {type type' : BasicType}
    (same : type.code = type'.code) : type = type' := by
  have known := BasicType.ofCode?_eq_some_iff.mpr same
  rw [BasicType.ofCode?_eq_some_iff.mpr rfl, Option.some.injEq] at known
  exact known

theorem denotesType_iff {word : List UInt8} {type : ValueType} :
    DenotesType word type ↔
      ∃ known : BasicType, word = [known.code] ∧ type = .basic known := by
  constructor
  · intro accepted
    rcases accepted with ⟨known⟩
    exact ⟨known, rfl, rfl⟩
  · intro denoted
    rcases denoted with ⟨known, rfl, rfl⟩
    exact .basic known

theorem denotesValue_iff {word : List UInt8} {value : Value} :
    DenotesValue word value ↔
      ∃ (known : BasicValue) (content : List UInt8),
        word = known.type.code :: content ∧ DenotesContent content known ∧
          value = .basic known := by
  constructor
  · intro accepted
    rcases accepted with ⟨content⟩
    exact ⟨_, _, rfl, content, rfl⟩
  · intro denoted
    rcases denoted with ⟨known, content, rfl, denotes, rfl⟩
    exact .basic denotes

theorem accepts_decodeType : Accepts ValueType.decode DenotesType := by
  unfold ValueType.decode
  refine Accepts.congr (accepts_readByte.bind_select fun code =>
    (?_ : Accepts _ (fun word found => word = [] ∧
      ∃ type, BasicType.ofCode? code = some type ∧
        found = ValueType.basic type)))
    fun word found => ?_
  · split
    · rename_i known
      refine (Accepts.pure _).congr fun word found => ?_
      simp [WordLanguage.known, known]
    · rename_i unknown
      refine (Accepts.throw _).congr fun word found => ?_
      simp [WordLanguage.empty, unknown]
  · simp only [denotesType_iff, BasicType.ofCode?_eq_some_iff]
    constructor
    · intro accepted
      rcases accepted with ⟨code, rfl, type, rfl, rfl⟩
      exact ⟨type, rfl, rfl⟩
    · intro denoted
      rcases denoted with ⟨type, rfl, rfl⟩
      exact ⟨type.code, rfl, type, rfl, rfl⟩

theorem accepts_decodeBinary32 :
    Accepts Binary32.decode
      (fun word number => DenotesNumber word number.bits.toNat) := by
  refine (accepts_readWord.bind_pure Binary32.mk).congr fun word number => ?_
  constructor
  · intro accepted
    rcases accepted with ⟨bits, denotes, rfl⟩
    exact denotes
  · intro denotes
    exact ⟨number.bits, denotes, rfl⟩

theorem accepts_decodeContent (type : BasicType) :
    Accepts (BasicValue.decodeContent type)
      (fun word value => DenotesContent word value ∧ value.type = type) := by
  cases type with
  | bool =>
      refine (accepts_readFlag.map BasicValue.bool).congr fun word value => ?_
      constructor
      · intro accepted
        rcases accepted with ⟨truth, flag, rfl⟩
        exact ⟨.bool flag, rfl⟩
      · intro denoted
        rcases denoted with ⟨content, same⟩
        cases content with
        | bool flag => exact ⟨_, flag, rfl⟩
        | int | float | color | string => cases same
  | int =>
      refine (accepts_readWord.map fun bits =>
        BasicValue.int (.ofUInt32 bits)).congr
        fun word value => ?_
      constructor
      · intro accepted
        rcases accepted with ⟨bits, denotes, rfl⟩
        exact ⟨.int (by simpa using denotes), rfl⟩
      · intro denoted
        rcases denoted with ⟨content, same⟩
        cases content with
        | @int word number bits => exact ⟨number.toUInt32, bits, by simp⟩
        | bool | float | color | string => cases same
  | float =>
      refine (accepts_decodeBinary32.map BasicValue.float).congr
        fun word value => ?_
      constructor
      · intro accepted
        rcases accepted with ⟨number, bits, rfl⟩
        exact ⟨.float bits, rfl⟩
      · intro denoted
        rcases denoted with ⟨content, same⟩
        cases content with
        | float bits => exact ⟨_, bits, rfl⟩
        | bool | int | color | string => cases same
  | color =>
      refine (accepts_decodeBinary32.bind fun red =>
        accepts_decodeBinary32.bind fun green =>
          accepts_decodeBinary32.bind_pure fun blue =>
            BasicValue.color red green blue).congr fun word value => ?_
      constructor
      · intro accepted
        rcases accepted with
          ⟨redWord, _, red, rfl, redBits, greenWord, blueWord, green, rfl,
            greenBits, blue, blueBits, rfl⟩
        exact ⟨.color redBits greenBits blueBits, rfl⟩
      · intro denoted
        rcases denoted with ⟨content, same⟩
        cases content with
        | color redBits greenBits blueBits =>
            exact ⟨_, _, _, rfl, redBits, _, _, _, rfl, greenBits, _,
              blueBits, rfl⟩
        | bool | int | float | string => cases same
  | string =>
      refine (accepts_readText.map BasicValue.string).congr fun word value => ?_
      constructor
      · intro accepted
        rcases accepted with ⟨content, text, rfl⟩
        exact ⟨.string text, rfl⟩
      · intro denoted
        rcases denoted with ⟨content, same⟩
        cases content with
        | string text => exact ⟨_, text, rfl⟩
        | bool | int | float | color => cases same
  | bsdf | material =>
      refine (Accepts.throw _).congr fun word value => ?_
      constructor
      · exact False.elim
      · intro denoted
        rcases denoted with ⟨content, same⟩
        cases content <;> cases same

theorem accepts_decodeValue : Accepts Value.decode DenotesValue := by
  unfold Value.decode
  refine Accepts.congr (accepts_readByte.bind fun code => (?_ : Accepts _
    (fun word found => ∃ type value, BasicType.ofCode? code = some type ∧
      DenotesContent word value ∧ value.type = type ∧
        found = Value.basic value)))
    fun word found => ?_
  · split
    · rename_i known
      refine ((accepts_decodeContent _).map _).congr fun word found => ?_
      constructor
      · intro accepted
        rcases accepted with ⟨value, ⟨denotes, sameType⟩, rfl⟩
        exact ⟨_, value, known, denotes, sameType, rfl⟩
      · intro denoted
        rcases denoted with ⟨type, value, known', denotes, sameType, rfl⟩
        rw [known] at known'
        cases known'
        exact ⟨value, ⟨denotes, sameType⟩, rfl⟩
    · rename_i unknown
      refine (Accepts.throw _).congr fun word found => ?_
      simp [WordLanguage.empty, unknown]
  · simp only [denotesValue_iff, BasicType.ofCode?_eq_some_iff]
    constructor
    · intro accepted
      rcases accepted with
        ⟨_, tail, code, rfl, rfl, _, value, rfl, denotes, rfl, rfl⟩
      exact ⟨value, tail, rfl, denotes, rfl⟩
    · intro denoted
      rcases denoted with ⟨value, tail, rfl, denotes, rfl⟩
      exact ⟨[value.type.code], tail, _, rfl, rfl, _, value, rfl, denotes,
        rfl, rfl⟩

end MaterialGraph
