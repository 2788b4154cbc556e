import MaterialGraph.Proofs.Expression.Extension
import MaterialGraph.Proofs.GraphFile
import MaterialGraph.Proofs.Store.Cycles
import MaterialGraph.Proofs.Store.Wire

/-!
# What a graph file holds

A file is accepted exactly if it is the header and one word of the format that
takes all of the rest.  A file that is cut off, continued or damaged in its
header is refused, and the reason tells which of these has happened.
-/

namespace MaterialGraph

open ByteStream

namespace ByteStream

/-- Where only the beginning of a word is left, the bytes end too early. -/
theorem Accepts.unexpectedEnd_of_rest {α : Type} {read : Read α}
    {language : WordLanguage α} (accepts : Accepts read language)
    (stable : IsStable read) {head tail : List UInt8} {object : α}
    (objectWord : language (head ++ tail) object) (more : tail ≠ [])
    {reader : Reader} (inside : reader.position ≤ reader.bytes.size)
    (rest : reader.rest = head) :
    ∃ left, read reader = .error .unexpectedEnd left := by
  have continued : (reader.extend tail).rest = head ++ tail := by
    rw [← rest]
    simp [Reader.rest, Reader.extend, List.drop_append_of_le_length, inside]
  have whole := (accepts (reader.extend tail) object _).mpr
    ⟨head ++ tail, continued ▸ List.prefix_rfl, objectWord, rfl⟩
  cases part : read reader with
  | ok found left =>
      -- an object within the beginning would leave the continuation over
      obtain ⟨word, ahead, -, rfl⟩ := (accepts reader found left).mp part
      have again := whole.symm.trans (stable.success part tail)
      have sameEnd := congrArg Reader.position (EStateM.Result.ok.inj again).2
      have short := ahead.length_le
      have added : 0 < tail.length := List.length_pos_iff.mpr more
      simp only [Reader.position_advance, Reader.position_extend,
        List.length_append, rest] at sameEnd short
      omega
  | error reason left =>
      by_cases ended : reason = .unexpectedEnd
      · exact ⟨left, by rw [ended]⟩
      · have again := whole.symm.trans (stable.failure part ended tail)
        cases again

end ByteStream

namespace GraphFile

/-- The reader of a file behind its header. -/
def behindHeader (word : List UInt8) : Reader :=
  (Reader.ofList (magic ++ version :: word)).advance (magic.length + 1)

@[simp] theorem rest_behindHeader (word : List UInt8) :
    (behindHeader word).rest = word := by
  simp [behindHeader, magic]

theorem position_behindHeader_le (word : List UInt8) :
    (behindHeader word).position ≤ (behindHeader word).bytes.size := by
  simp [behindHeader, Reader.ofList, Reader.advance]

/-- After a header the expression is read, and then nothing may be left. -/
theorem decode_header_append (word : List UInt8) :
    decode (magic ++ version :: word) =
      match Expression.decode (behindHeader word) with
      | .ok expression left =>
          if left.rest = [] then .ok expression
          else .error (.trailingBytes left.rest.length)
      | .error reason _ => .error reason := by
  have header : readHeader (.ofList (magic ++ version :: word)) =
      .ok () (behindHeader word) :=
    answers_readHeader _ (by simp)
  simp only [decode, read, Bind.bind, EStateM.bind, header]
  cases Expression.decode (behindHeader word) with
  | error reason left => rfl
  | ok expression left =>
      have atEnd : left.atEnd = true ↔ left.rest = [] := by
        simp [Reader.atEnd, Reader.rest]
      dsimp only
      rw [readEnd, ← Reader.length_rest]
      by_cases ended : left.rest = []
      · rw [if_pos (atEnd.mpr ended), if_pos ended]
        rfl
      · rw [if_neg fun isEnd => ended (atEnd.mp isEnd), if_neg ended]

theorem decode_magic : decode magic = .error .badHeader :=
  rfl

theorem decode_of_version_ne {found : UInt8} (other : found ≠ version)
    (rest : List UInt8) :
    decode (magic ++ found :: rest) = .error (.unsupportedVersion found) := by
  have opening : readBlock magic.length (.ofList (magic ++ found :: rest)) =
      .ok magic.toArray ((Reader.ofList (magic ++ found :: rest)).advance 4) :=
    (accepts_readBlock magic.length).ofList_append ⟨rfl, rfl⟩ _
  have next : readByte ((Reader.ofList (magic ++ found :: rest)).advance 4) =
      .ok found ((Reader.ofList (magic ++ found :: rest)).advance 5) := by
    refine answers_readByte found _ ?_
    simp [magic]
  simp only [decode, read, readHeader, Bind.bind, EStateM.bind, opening, next,
    if_true, if_neg other]

/-- What is accepted starts with a header. -/
theorem exists_word_of_decode_eq_ok {bytes : List UInt8}
    {expression : Expression} (accepted : decode bytes = .ok expression) :
    ∃ word, bytes = magic ++ version :: word := by
  by_cases starts : magic <+: bytes
  · obtain ⟨rest, rfl⟩ := starts
    cases rest with
    | nil =>
        rw [List.append_nil, decode_magic] at accepted
        cases accepted
    | cons found word =>
        by_cases other : found = version
        · exact ⟨word, by rw [other]⟩
        · rw [decode_of_version_ne other] at accepted
          cases accepted
  · have refused := decode_of_not_prefix starts
    cases refused.symm.trans accepted

/-- The file of a word holds what the word denotes. -/
theorem decode_header_append_eq_ok_iff {word : List UInt8}
    {expression : Expression} :
    decode (magic ++ version :: word) = .ok expression ↔
      DenotesExpression word expression 0 := by
  rw [decode_header_append]
  constructor
  · intro accepted
    cases result : Expression.decode (behindHeader word) with
    | error reason left =>
        rw [result] at accepted
        cases accepted
    | ok found left =>
        obtain ⟨taken, ahead, denotes, rfl⟩ :=
          (accepts_decodeExpression _ found left).mp result
        rw [rest_behindHeader] at ahead
        obtain ⟨following, rfl⟩ := ahead
        simp only [result, Reader.rest_advance, rest_behindHeader,
          List.drop_left] at accepted
        split at accepted
        · rename_i nothing
          cases accepted
          rwa [nothing, List.append_nil]
        · cases accepted
  · intro denotes
    have result := (accepts_decodeExpression (behindHeader word) expression
      _).mpr ⟨word, by simp, denotes, rfl⟩
    simp [result]

theorem decode_eq_ok_iff {bytes : List UInt8} {expression : Expression} :
    decode bytes = .ok expression ↔
      ∃ word, bytes = magic ++ version :: word ∧
        DenotesExpression word expression 0 := by
  constructor
  · intro accepted
    obtain ⟨word, rfl⟩ := exists_word_of_decode_eq_ok accepted
    exact ⟨word, rfl, decode_header_append_eq_ok_iff.mp accepted⟩
  · rintro ⟨word, rfl, denotes⟩
    exact decode_header_append_eq_ok_iff.mpr denotes

section Damage

variable {expression : Expression}

/-- A file that is cut off has no header, or ends too early. -/
theorem decode_take_encode
    (denotes : DenotesExpression expression.encode expression 0) {count : Nat}
    (short : count < (encode expression).length) :
    decode ((encode expression).take count) =
      .error (if count < 5 then .badHeader else .unexpectedEnd) := by
  by_cases inHeader : count < 5
  · rw [if_pos inHeader]
    by_cases whole : count = 4
    · subst whole
      exact decode_magic
    · apply decode_of_not_prefix
      intro starts
      have enough := starts.length_le
      simp only [List.length_take, magic, List.length_cons,
        List.length_nil] at enough
      omega
  · rw [if_neg inHeader]
    have split : (encode expression).take count =
        magic ++ version :: expression.encode.take (count - 5) := by
      obtain ⟨others, rfl⟩ := Nat.exists_eq_add_of_le (Nat.le_of_not_lt inHeader)
      rw [Nat.add_comm 5 others, Nat.add_sub_cancel]
      rfl
    have cut : expression.encode.drop (count - 5) ≠ [] := by
      simp only [encode, magic, List.length_append, List.length_cons,
        List.length_nil] at short
      simp only [ne_eq, List.drop_eq_nil_iff, Nat.not_le]
      omega
    obtain ⟨left, refused⟩ := accepts_decodeExpression.unexpectedEnd_of_rest
      isStable_decodeExpression
      ((List.take_append_drop (count - 5) expression.encode).symm ▸ denotes) cut
      (position_behindHeader_le _) (rest_behindHeader _)
    rw [split, decode_header_append, refused]

/-- A file that is continued has as many bytes too many. -/
theorem decode_encode_trailing
    (denotes : DenotesExpression expression.encode expression 0)
    {following : List UInt8} (more : following ≠ []) :
    decode (encode expression ++ following) =
      .error (.trailingBytes following.length) := by
  have split : encode expression ++ following =
      magic ++ version :: (expression.encode ++ following) := by
    simp [encode]
  have result := (accepts_decodeExpression
    (behindHeader (expression.encode ++ following)) expression _).mpr
      ⟨expression.encode, by simp, denotes, rfl⟩
  rw [split, decode_header_append, result]
  simp [more]

/-- Each of the magic bytes counts. -/
theorem decode_set_of_lt {index : Nat} {byte : UInt8} (inMagic : index < 4)
    (other : (encode expression)[index]? ≠ some byte) :
    decode ((encode expression).set index byte) = .error .badHeader := by
  apply decode_of_not_prefix
  rintro ⟨rest, same⟩
  have inMagic' : index < magic.length := inMagic
  have inside : index < (encode expression).length := by
    simp only [encode, List.length_append]
    omega
  have found := congrArg (·[index]?) same
  simp only [List.getElem?_set_self inside,
    List.getElem?_append_left inMagic'] at found
  rw [encode, List.getElem?_append_left inMagic'] at other
  exact other found

theorem decode_set_version {byte : UInt8} (other : byte ≠ version) :
    decode ((encode expression).set 4 byte) =
      .error (.unsupportedVersion byte) :=
  decode_of_version_ne other expression.encode

end Damage

/-- A file holds an expression exactly if it is the header and then bytes that
are read as the expression up to their end.  The file of an object without
cycles that can be stored holds its tree.  Cut off, continued, or with another
byte in its header it is refused. -/
theorem decode_frames_one_expression :
    (∀ bytes expression, decode bytes = .ok expression ↔
      ∃ word left, bytes = magic ++ version :: word ∧
        Expression.decode (.ofList word) = .ok expression left ∧
        left.position = word.length) ∧
    ∀ operations id root,
      (Store.run {} operations).unfolding? (.node id) =
        some (.expression root) →
      (Tree.expression root).IsStorable →
        (∃ word, (Store.run {} operations).encode (.node id) = .ok word ∧
          encode root = magic ++ version :: word) ∧
        decode (encode root) = .ok root ∧
        (∀ count, count < (encode root).length →
          decode ((encode root).take count) =
            .error (if count < 5 then .badHeader else .unexpectedEnd)) ∧
        (∀ following, following ≠ [] →
          decode (encode root ++ following) =
            .error (.trailingBytes following.length)) ∧
        (∀ index byte, index < 4 → (encode root)[index]? ≠ some byte →
          decode ((encode root).set index byte) = .error .badHeader) ∧
        ∀ byte, byte ≠ version →
          decode ((encode root).set 4 byte) =
            .error (.unsupportedVersion byte) := by
  constructor
  · intro bytes expression
    have wholeWord (word : List UInt8) :=
      accepts_decodeExpression.ofList word expression word.length
    simp only [Nat.le_refl, true_and, List.take_length] at wholeWord
    rw [decode_eq_ok_iff]
    constructor
    · rintro ⟨word, same, denotes⟩
      obtain ⟨left, read, position⟩ := (wholeWord word).mpr denotes
      exact ⟨word, left, same, read, position⟩
    · rintro ⟨word, left, same, read, position⟩
      exact ⟨word, same, (wholeWord word).mp ⟨left, read, position⟩⟩
  · intro operations id root unfolds storable
    have denotes : DenotesExpression root.encode root 0 :=
      denotes_encode storable
    have consistent := Store.consistent_run operations
    exact ⟨⟨_, Store.encode_eq_ok consistent unfolds, rfl⟩,
      decode_header_append_eq_ok_iff.mpr denotes,
      fun _ short => decode_take_encode denotes short,
      fun _ more => decode_encode_trailing denotes more,
      fun _ _ inMagic other => decode_set_of_lt inMagic other,
      fun _ other => decode_set_version other⟩

theorem decode_frames_one_expression_layeredMaterial :
    ∃ id root, .expression root = Store.layeredMaterial ∧
      (Store.run {} [.place Store.layeredMaterial]).unfolding? (.node id) =
        some (.expression root) ∧
      (Tree.expression root).IsStorable ∧
      decode (encode root) = .ok root ∧
      decode ((encode root).take 4) = .error .badHeader ∧
      decode ((encode root).take 5) = .error .unexpectedEnd ∧
      decode (encode root ++ [0]) = .error (.trailingBytes 1) := by
  have unfolds : (Store.run {} [.place Store.layeredMaterial]).unfolding?
      (Store.layeredMaterial.place.run {}).1 = some Store.layeredMaterial :=
    Store.layeredMaterial.unfolding?_place {}
      Store.isStorable_layeredMaterial.distinct
  revert unfolds
  generalize (Store.layeredMaterial.place.run {}).1 = handle
  intro unfolds
  cases handle with
  | node id =>
      obtain ⟨-, whole, cut, continued, -⟩ :=
        decode_frames_one_expression.2 [.place Store.layeredMaterial] id _
          unfolds Store.isStorable_layeredMaterial
      refine ⟨id, _, rfl, unfolds, Store.isStorable_layeredMaterial, whole,
        cut 4 ?_, cut 5 ?_, continued [0] (by decide)⟩
      · simp [encode, magic]
      · simp [encode, magic, Expression.encode]
  | list | note | block | table =>
      cases Store.form_of_unfolding?_eq_some unfolds

end GraphFile

end MaterialGraph
