import MaterialGraph.ByteStream.Reader

/-!
# Languages that readers accept

A language says which words denote which objects.  A reader accepts a language
if it succeeds exactly when a word of the language lies ahead, finds the object
that the word denotes, and stops right behind the word.

The language of a composed reader is composed of the languages of its parts.
No later proof follows a position in a buffer.
-/

namespace MaterialGraph

namespace Reader

@[simp] theorem rest_ofList (bytes : List UInt8) :
    (Reader.ofList bytes).rest = bytes := by
  simp [Reader.ofList, Reader.rest]

@[simp] theorem position_ofList (bytes : List UInt8) :
    (Reader.ofList bytes).position = 0 :=
  rfl

@[simp] theorem position_advance (reader : Reader) (count : Nat) :
    (reader.advance count).position = reader.position + count :=
  rfl

@[simp] theorem rest_advance (reader : Reader) (count : Nat) :
    (reader.advance count).rest = reader.rest.drop count := by
  simp [Reader.advance, Reader.rest, List.drop_drop]

theorem advance_advance (reader : Reader) (first second : Nat) :
    (reader.advance first).advance second =
      reader.advance (first + second) := by
  simp [Reader.advance, Nat.add_assoc]

theorem length_rest (reader : Reader) :
    reader.rest.length = reader.remaining := by
  simp [Reader.rest, Reader.remaining]

end Reader

namespace ByteStream

/-- Words and the objects that they denote. -/
abbrev WordLanguage (α : Type) := List UInt8 → α → Prop

namespace WordLanguage

/-- Nothing has to be written for an object that is known. -/
def known {α : Type} (object : α) : WordLanguage α := fun word found =>
  word = [] ∧ found = object

/-- No word denotes anything. -/
def empty {α : Type} : WordLanguage α := fun _ _ => False

/-- A word for an object, and then a word for another one, whose language may
depend on the first object. -/
def andThen {α β : Type} (first : WordLanguage α)
    (second : α → WordLanguage β) :
    WordLanguage β := fun word found =>
  ∃ head tail middle,
    word = head ++ tail ∧ first head middle ∧ second middle tail found

end WordLanguage

/-- A reader succeeds exactly on the words of a language. -/
def Accepts {α : Type} (read : Read α) (language : WordLanguage α) : Prop :=
  ∀ reader found left,
    read reader = .ok found left ↔
      ∃ word, word <+: reader.rest ∧ language word found ∧
        left = reader.advance word.length

namespace Accepts

variable {α β : Type} {read : Read α} {language : WordLanguage α}

theorem congr {other : WordLanguage α} (accepts : Accepts read language)
    (same : ∀ word found, language word found ↔ other word found) :
    Accepts read other := by
  intro reader found left
  simp only [accepts reader found left, same]

theorem pure (object : α) :
    Accepts (pure object) (WordLanguage.known object) := by
  intro reader found left
  constructor
  · intro result
    cases result
    exact ⟨[], List.nil_prefix, ⟨rfl, rfl⟩, rfl⟩
  · intro denoted
    rcases denoted with ⟨word, -, ⟨rfl, rfl⟩, rfl⟩
    rfl

theorem throw (reason : DecodeError) :
    Accepts (throw reason) (WordLanguage.empty (α := α)) := by
  intro reader found left
  constructor
  · intro result
    cases result
  · intro denoted
    rcases denoted with ⟨word, -, impossible, -⟩
    exact impossible.elim

theorem bind {next : α → Read β} {following : α → WordLanguage β}
    (accepts : Accepts read language)
    (nextAccepts : ∀ object, Accepts (next object) (following object)) :
    Accepts (read >>= next) (language.andThen following) := by
  intro reader found left
  constructor
  · intro result
    cases firstResult : read reader with
    | error reason failed =>
        simp [Bind.bind, EStateM.bind, firstResult] at result
    | ok middle between =>
        simp only [Bind.bind, EStateM.bind, firstResult] at result
        obtain ⟨head, headAhead, headWord, rfl⟩ :=
          (accepts reader middle between).mp firstResult
        obtain ⟨tail, tailAhead, tailWord, rfl⟩ :=
          (nextAccepts middle _ found left).mp result
        obtain ⟨following, same⟩ := headAhead
        refine ⟨head ++ tail, ?_,
          ⟨head, tail, middle, rfl, headWord, tailWord⟩, ?_⟩
        · rw [Reader.rest_advance, ← same, List.drop_left] at tailAhead
          rw [← same]
          exact (List.prefix_append_right_inj head).mpr tailAhead
        · rw [Reader.advance_advance, List.length_append]
  · intro denoted
    rcases denoted with
      ⟨word, ahead, ⟨head, tail, middle, rfl, headWord, tailWord⟩, rfl⟩
    obtain ⟨following, same⟩ := ahead
    have firstResult : read reader = .ok middle (reader.advance head.length) :=
      (accepts reader middle _).mpr
        ⟨head, ⟨tail ++ following, by rw [← same, List.append_assoc]⟩,
          headWord, rfl⟩
    have nextResult :
        next middle (reader.advance head.length) =
          .ok found (reader.advance (head ++ tail).length) := by
      refine (nextAccepts middle _ found _).mpr ⟨tail, ?_, tailWord, ?_⟩
      · rw [Reader.rest_advance, ← same, List.append_assoc, List.drop_left]
        exact List.prefix_append tail following
      · rw [Reader.advance_advance, List.length_append]
    simp only [Bind.bind, EStateM.bind, firstResult, nextResult]

/-- Go on without reading further, or refuse. -/
theorem bind_select {next : α → Read β} {select : α → β → Prop}
    (accepts : Accepts read language)
    (selects : ∀ object, Accepts (next object)
      (fun word found => word = [] ∧ select object found)) :
    Accepts (read >>= next)
      (fun word found => ∃ object, language word object ∧
        select object found) := by
  refine (accepts.bind selects).congr ?_
  intro word found
  constructor
  · intro accepted
    rcases accepted with ⟨head, tail, object, rfl, headWord, rfl, selected⟩
    exact ⟨object, by simpa using headWord, selected⟩
  · intro denoted
    rcases denoted with ⟨object, objectWord, selected⟩
    exact ⟨word, [], object, by simp, objectWord, rfl, selected⟩

theorem bind_pure (accepts : Accepts read language) (change : α → β) :
    Accepts (read >>= fun object => Pure.pure (change object))
      (fun word found => ∃ object, language word object ∧
        found = change object) :=
  accepts.bind_select fun object => Accepts.pure (change object)

theorem map (accepts : Accepts read language) (change : α → β) :
    Accepts (change <$> read)
      (fun word found => ∃ object, language word object ∧
        found = change object) :=
  accepts.bind_pure change

/-- Read from the start of some bytes. -/
theorem ofList (accepts : Accepts read language) (bytes : List UInt8)
    (object : α) (position : Nat) :
    (∃ left, read (.ofList bytes) = .ok object left ∧
      left.position = position) ↔
      position ≤ bytes.length ∧ language (bytes.take position) object := by
  constructor
  · intro accepted
    rcases accepted with ⟨left, result, rfl⟩
    obtain ⟨word, ahead, objectWord, rfl⟩ := (accepts _ object left).mp result
    rw [Reader.rest_ofList] at ahead
    simp only [Reader.position_advance, Reader.position_ofList, Nat.zero_add]
    rw [← List.prefix_iff_eq_take.mp ahead]
    exact ⟨ahead.length_le, objectWord⟩
  · intro denoted
    rcases denoted with ⟨inside, objectWord⟩
    refine ⟨(Reader.ofList bytes).advance position, ?_, by simp⟩
    refine (accepts _ object _).mpr ⟨bytes.take position, ?_, objectWord, ?_⟩
    · rw [Reader.rest_ofList]
      exact List.take_prefix position bytes
    · rw [List.length_take_of_le inside]

/-- Read a word that is followed by other bytes. -/
theorem ofList_append (accepts : Accepts read language) {word : List UInt8}
    {object : α} (objectWord : language word object) (following : List UInt8) :
    read (.ofList (word ++ following)) =
      .ok object ((Reader.ofList (word ++ following)).advance word.length) := by
  refine (accepts _ object _).mpr ⟨word, ?_, objectWord, rfl⟩
  rw [Reader.rest_ofList]
  exact List.prefix_append word following

/-- At most one word of an accepted language is at the start of given bytes,
and it denotes one object. -/
theorem unique (accepts : Accepts read language) {bytes : List UInt8}
    {object object' : α} {position position' : Nat}
    (inside : position ≤ bytes.length) (inside' : position' ≤ bytes.length)
    (objectWord : language (bytes.take position) object)
    (objectWord' : language (bytes.take position') object') :
    position = position' ∧ object = object' := by
  obtain ⟨left, result, rfl⟩ :=
    (accepts.ofList bytes object position).mpr ⟨inside, objectWord⟩
  obtain ⟨left', result', rfl⟩ :=
    (accepts.ofList bytes object' position').mpr ⟨inside', objectWord'⟩
  rw [result] at result'
  cases result'
  exact ⟨rfl, rfl⟩

end Accepts

end ByteStream

end MaterialGraph
