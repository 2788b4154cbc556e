import MaterialGraph.Proofs.ByteStream.Number

/-!
# Words for truth values and text

A number of 32 bits is a number of 64 bits that is small enough.  A truth value
is one byte.  A text is the number of its bytes followed by these bytes, which
are the UTF-8 form of the text and of no other one.
-/

namespace MaterialGraph

namespace ByteStream

/-- The byte zero or one. -/
inductive DenotesFlag : List UInt8 → Bool → Prop
  | no : DenotesFlag [0] false
  | yes : DenotesFlag [1] true

/-- A count, and exactly so many bytes, which are the UTF-8 form of a text. -/
inductive DenotesText : List UInt8 → String → Prop
  | counted {count : List UInt8} {text : String}
      (size : DenotesNumber count (textBytes text).length) :
      DenotesText (count ++ textBytes text) text

theorem DenotesText.lt_size {word : List UInt8} {text : String}
    (denotes : DenotesText word text) : text.utf8ByteSize < UInt64.size := by
  cases denotes with
  | counted size => exact size.lt_size

theorem length_textBytes (text : String) :
    (textBytes text).length = text.utf8ByteSize :=
  rfl

theorem textBytes_injective {text text' : String}
    (same : textBytes text = textBytes text') : text = text' := by
  apply String.toByteArray_inj.mp
  apply ByteArray.ext
  exact Array.toList_inj.mp same

theorem fromUTF8?_eq_some_iff {block : Array UInt8} {text : String} :
    String.fromUTF8? ⟨block⟩ = some text ↔ block.toList = textBytes text := by
  unfold String.fromUTF8?
  constructor
  · intro read
    split at read
    · cases read
      rfl
    · cases read
  · intro same
    have whole : (⟨block⟩ : ByteArray) = text.toByteArray :=
      ByteArray.ext (Array.toList_inj.mp same)
    rw [whole, dif_pos text.isValidUTF8]
    rfl

theorem accepts_readBlock (count : Nat) :
    Accepts (readBlock count) (fun word block =>
      word.length = count ∧ block.toList = word) := by
  intro reader block left
  have extracted :
      (reader.bytes.extract reader.position (reader.position + count)).toList =
        reader.rest.take count := by
    simp [Reader.rest, List.extract_eq_take_drop]
  unfold readBlock
  rw [← Reader.length_rest]
  constructor
  · intro result
    split at result
    · rename_i enough
      cases result
      exact ⟨reader.rest.take count, List.take_prefix count reader.rest,
        ⟨List.length_take_of_le enough, extracted⟩,
        by rw [List.length_take_of_le enough]⟩
    · cases result
  · intro denoted
    rcases denoted with ⟨word, ahead, ⟨rfl, rfl⟩, rfl⟩
    have same := Array.toList_inj.mp
      (extracted.trans (List.prefix_iff_eq_take.mp ahead).symm)
    rw [if_pos ahead.length_le, same]

theorem accepts_readWord :
    Accepts readWord (fun word number => DenotesNumber word number.toNat) := by
  have selects : ∀ number : UInt64,
      Accepts
        (if number.toNat < UInt32.size then
          Pure.pure (UInt32.ofNat number.toNat) else throw .overflow :
            Read UInt32)
        (fun word found => word = [] ∧ found.toNat = number.toNat) := by
    intro number
    split
    · rename_i small
      refine (Accepts.pure _).congr fun word found => ?_
      simp only [WordLanguage.known, ← UInt32.toNat_inj,
        UInt32.toNat_ofNat_of_lt' small]
    · rename_i large
      refine (Accepts.throw _).congr fun word found => ?_
      have different : found.toNat ≠ number.toNat := by
        have small := found.toNat_lt_size
        omega
      simp [WordLanguage.empty, different]
  refine (accepts_readVarint.bind_select selects).congr fun word found => ?_
  constructor
  · intro accepted
    rcases accepted with ⟨number, denotes, same⟩
    rwa [same]
  · intro denotes
    exact ⟨found.toUInt64, by simpa using denotes, by simp⟩

theorem accepts_readFlag : Accepts readFlag DenotesFlag := by
  have selects : ∀ byte : UInt8,
      Accepts
        (if byte = 0 then Pure.pure false
          else if byte = 1 then Pure.pure true
          else throw (.badFlag byte) : Read Bool)
        (fun word flag => word = [] ∧ DenotesFlag [byte] flag) := by
    intro byte
    split
    · rename_i zero
      subst zero
      refine (Accepts.pure _).congr fun word flag => and_congr_right fun _ => ?_
      exact ⟨fun same => same ▸ .no, fun denotes => by cases denotes; rfl⟩
    · rename_i notZero
      split
      · rename_i one
        subst one
        refine (Accepts.pure _).congr fun word flag =>
          and_congr_right fun _ => ?_
        exact ⟨fun same => same ▸ .yes, fun denotes => by cases denotes; rfl⟩
      · rename_i notOne
        refine (Accepts.throw _).congr fun word flag => ?_
        constructor
        · exact False.elim
        · intro denoted
          rcases denoted with ⟨-, denotes⟩
          cases denotes with
          | no => exact notZero rfl
          | yes => exact notOne rfl
  refine (accepts_readByte.bind_select selects).congr fun word flag => ?_
  constructor
  · intro accepted
    rcases accepted with ⟨byte, rfl, denotes⟩
    exact denotes
  · intro denotes
    cases denotes with
    | no => exact ⟨0, rfl, .no⟩
    | yes => exact ⟨1, rfl, .yes⟩

theorem accepts_readText : Accepts readText DenotesText := by
  unfold readText
  refine Accepts.congr (accepts_readVarint.bind fun count =>
    (accepts_readBlock count.toNat).bind_select fun block => (?_ : Accepts _
      (fun word text => word = [] ∧ block.toList = textBytes text)))
    fun word text => ?_
  · split
    · rename_i text valid
      refine (Accepts.pure _).congr fun word found =>
        and_congr_right fun _ => ?_
      rw [← fromUTF8?_eq_some_iff, valid, Option.some.injEq, eq_comm]
    · rename_i invalid
      refine (Accepts.throw _).congr fun word found => ?_
      rw [← fromUTF8?_eq_some_iff, invalid]
      simp [WordLanguage.empty]
  · constructor
    · intro accepted
      rcases accepted with
        ⟨head, tail, count, rfl, denotes, block, ⟨length, rfl⟩, same⟩
      rw [same] at length ⊢
      exact .counted (length ▸ denotes)
    · intro denotes
      cases denotes with
      | @counted count text size =>
          have whole := UInt64.toNat_ofNat_of_lt' size.lt_size
          exact ⟨count, textBytes text,
            UInt64.ofNat (textBytes text).length, rfl,
            by simpa only [whole] using size,
            (textBytes text).toArray, ⟨whole.symm, rfl⟩, rfl⟩

theorem denotesFlag_encodeFlag (flag : Bool) :
    DenotesFlag (encodeFlag flag) flag := by
  cases flag with
  | false => exact .no
  | true => exact .yes

theorem denotesText_encodeText {text : String}
    (small : text.utf8ByteSize < UInt64.size) :
    DenotesText (encodeText text) text :=
  .counted (denotesNumber_encodeVarint small)

theorem encodeText_append_inj {text text' : String}
    {following following' : List UInt8}
    (same : encodeText text ++ following = encodeText text' ++ following') :
    text = text' ∧ following = following' := by
  simp only [encodeText, List.append_assoc] at same
  obtain ⟨sameSize, sameRest⟩ := encodeVarint_append_inj same
  have sameLength : (textBytes text).length = (textBytes text').length := by
    rw [length_textBytes, length_textBytes, sameSize]
  obtain ⟨sameBytes, sameFollowing⟩ := List.append_inj sameRest sameLength
  exact ⟨textBytes_injective sameBytes, sameFollowing⟩

end ByteStream

end MaterialGraph
