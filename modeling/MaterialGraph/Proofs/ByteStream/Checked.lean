import MaterialGraph.Proofs.ByteStream.Bounds
import MaterialGraph.Proofs.ByteStream.Shifting

/-!
# Readers whose arithmetic is checked

The position of a reader and the lengths that it is asked for are machine words
of 64 bits.  Here every sum and every difference of words has to be a word, and
every block has to lie in the buffer; otherwise reading ends with a fault, which
is no answer at all.  A reader inside its buffer never comes to a fault, and
gives the answers of the reader that counts in numbers of any size.
-/

namespace MaterialGraph

namespace ByteStream

/-- A buffer and the position of its next unread byte as a word. -/
structure WordReader where
  bytes : Array UInt8
  position : UInt64

/-- Reading that may end with a fault (`none`).  A refusal is no fault. -/
abbrev Checked := ExceptT DecodeError (StateT WordReader Option)

namespace Checked

/-- The sum of two words, if it is a word. -/
def add? (word word' : UInt64) : Option UInt64 :=
  if word.toNat + word'.toNat < UInt64.size then some (word + word') else none

/-- The difference of two words, if it is a word. -/
def sub? (word word' : UInt64) : Option UInt64 :=
  if word'.toNat ≤ word.toNat then some (word - word') else none

/-- The bytes from a position up to another one, if they lie in the buffer. -/
def slice? (bytes : Array UInt8) (start stop : UInt64) :
    Option (Array UInt8) :=
  if start.toNat ≤ stop.toNat ∧ stop.toNat ≤ bytes.size then
    some (bytes.extract start.toNat stop.toNat)
  else
    none

def byte : Checked UInt8 := ExceptT.mk fun reader =>
  match reader.bytes[reader.position.toNat]? with
  | some byte => do
      let next ← add? reader.position 1
      return (.ok byte, { reader with position := next })
  | none => return (.error .unexpectedEnd, reader)

/-- The count is compared with what is left before anything is added. -/
def block (count : UInt64) : Checked (Array UInt8) :=
    ExceptT.mk fun reader => do
  let left ← sub? (UInt64.ofNat reader.bytes.size) reader.position
  if left < count then
    return (.error .unexpectedEnd, reader)
  else
    let stop ← add? reader.position count
    let bytes ← slice? reader.bytes reader.position stop
    return (.ok bytes, { reader with position := stop })

/-- Put groups into a word from a place on. -/
def shiftIn (place : Fin 64) (word : UInt64) : Checked UInt64 := do
  let byte ← byte
  let group := (byte &&& 0x7f).toUInt64
  if place.val = 63 ∧ 1 < group then
    throw .overflow
  else
    let extended := word ||| group <<< UInt64.ofNat place
    if byte &&& 0x80 = 0 then
      return extended
    else if inside : place.val + 7 < 64 then
      shiftIn ⟨place.val + 7, inside⟩ extended
    else
      throw .overflow
termination_by 64 - place.val

def varint : Checked UInt64 :=
  shiftIn 0 0

def flag : Checked Bool := do
  let byte ← byte
  if byte = 0 then
    return false
  else if byte = 1 then
    return true
  else
    throw (.badFlag byte)

def text : Checked String := do
  let count ← varint
  let block ← block count
  match String.fromUTF8? ⟨block⟩ with
  | some text => return text
  | none => throw .invalidText

end Checked

def Shape.check : Shape → Checked Item
  | .byte => Item.byte <$> Checked.byte
  | .long => Item.long <$> Checked.varint
  | .size => Item.size <$> Checked.varint
  | .flag => Item.flag <$> Checked.flag
  | .text => Item.text <$> Checked.text
  | .block count =>
      (fun block => Item.block block.toList) <$> Checked.block count

/-- The reader with its position as a word. -/
def WordReader.ofReader (reader : Reader) : WordReader where
  bytes := reader.bytes
  position := UInt64.ofNat reader.position

open WordReader (ofReader)

/-- Inside a buffer whose size is a word there is no fault, and the answer is
that of the reader that counts in numbers. -/
def Agrees {α : Type} (check : Checked α) (read : Read α) : Prop :=
  ∀ reader : Reader, reader.IsInside → reader.bytes.size < UInt64.size →
    check.run (ofReader reader) =
      some ((answer read reader).1, ofReader (answer read reader).2)

section Agrees

variable {α β : Type} {check : Checked α} {read : Read α}

/-- The next part is reached only after an object. -/
theorem Checked.run_bind (check : Checked α) (next : α → Checked β)
    (reader : WordReader) :
    (check >>= next).run reader =
      match check.run reader with
      | some (.ok object, left) => (next object).run left
      | some (.error reason, left) => some (.error reason, left)
      | none => none := by
  simp only [ExceptT.run, Bind.bind, ExceptT.bind, ExceptT.mk, StateT.bind]
  rcases check reader with _ | ⟨_ | _, _⟩ <;> rfl

theorem answer_bind (read : Read α) (next : α → Read β) (reader : Reader) :
    answer (read >>= next) reader =
      match answer read reader with
      | (.ok object, left) => answer (next object) left
      | (.error reason, left) => (.error reason, left) := by
  simp only [answer, Bind.bind, EStateM.bind]
  cases read reader <;> rfl

namespace Agrees

theorem pure (object : α) : Agrees (pure object) (pure object) :=
  fun _ _ _ => rfl

theorem throw (reason : DecodeError) :
    Agrees (throw reason : Checked α) (throw reason) :=
  fun _ _ _ => rfl

theorem bind {next : α → Checked β} {nextRead : α → Read β}
    (agrees : Agrees check read) (stays : Stays read)
    (nextAgrees : ∀ object, Agrees (next object) (nextRead object)) :
    Agrees (check >>= next) (read >>= nextRead) := by
  intro reader inside small
  rw [Checked.run_bind, answer_bind, agrees reader inside small]
  have step := stays reader inside
  revert step
  rcases answer read reader with ⟨reason | object, left⟩
  · intro step
    rfl
  · intro step
    have stillSmall : left.bytes.size < UInt64.size := by rwa [step.bytes]
    exact nextAgrees object left step.inside stillSmall

theorem map (agrees : Agrees check read) (stays : Stays read)
    (change : α → β) : Agrees (change <$> check) (change <$> read) := by
  rw [map_eq_pure_bind, map_eq_pure_bind]
  exact agrees.bind stays fun object => .pure (change object)

end Agrees

namespace Checked

variable {number number' : Nat}

theorem add?_ofNat (fits : number + number' < UInt64.size) :
    add? (.ofNat number) (.ofNat number') =
      some (.ofNat (number + number')) := by
  rw [add?, UInt64.toNat_ofNat_of_lt' (by omega),
    UInt64.toNat_ofNat_of_lt' (by omega), if_pos fits, UInt64.ofNat_add]

theorem sub?_ofNat (less : number' ≤ number) (fits : number < UInt64.size) :
    sub? (.ofNat number) (.ofNat number') =
      some (.ofNat (number - number')) := by
  rw [sub?, UInt64.toNat_ofNat_of_lt' (by omega),
    UInt64.toNat_ofNat_of_lt' fits, if_pos less, UInt64.ofNat_sub less]

theorem slice?_ofNat {bytes : Array UInt8} (forward : number ≤ number')
    (inside : number' ≤ bytes.size) (small : bytes.size < UInt64.size) :
    slice? bytes (.ofNat number) (.ofNat number') =
      some (bytes.extract number number') := by
  rw [slice?, UInt64.toNat_ofNat_of_lt' (by omega),
    UInt64.toNat_ofNat_of_lt' (by omega), if_pos ⟨forward, inside⟩]

end Checked

theorem agrees_readByte : Agrees Checked.byte readByte := by
  intro reader inside small
  have position : (UInt64.ofNat reader.position).toNat = reader.position :=
    UInt64.toNat_ofNat_of_lt' (Nat.lt_of_le_of_lt inside small)
  simp only [Checked.byte, ExceptT.run_mk, ofReader, position, answer, readByte]
  cases next : reader.bytes[reader.position]? with
  | none => rfl
  | some byte =>
      have before : reader.position < reader.bytes.size :=
        (Array.getElem?_eq_some_iff.mp next).1
      have moved : Checked.add? (.ofNat reader.position) 1 =
          some (.ofNat (reader.position + 1)) :=
        @Checked.add?_ofNat reader.position 1 (by omega)
      simp only [moved]
      rfl

theorem agrees_readBlock (count : UInt64) :
    Agrees (Checked.block count) (readBlock count.toNat) := by
  intro reader inside small
  have left := Checked.sub?_ofNat inside small
  have compared : UInt64.ofNat (reader.bytes.size - reader.position) < count ↔
      ¬count.toNat ≤ reader.remaining := by
    rw [UInt64.lt_iff_toNat_lt, UInt64.toNat_ofNat_of_lt' (by omega),
      Nat.not_le]
    rfl
  simp only [Checked.block, ExceptT.run_mk, ofReader, answer, readBlock, left,
    Option.bind_eq_bind, Option.bind_some, compared]
  by_cases enough : count.toNat ≤ reader.remaining
  · have within : reader.position + count.toNat ≤ reader.bytes.size := by
      rw [← inside.position_add_remaining]
      exact Nat.add_le_add_left enough _
    have stop : Checked.add? (.ofNat reader.position) count =
        some (.ofNat (reader.position + count.toNat)) := by
      have sum := Checked.add?_ofNat (Nat.lt_of_le_of_lt within small)
      rwa [UInt64.ofNat_toNat] at sum
    have bytes := Checked.slice?_ofNat (Nat.le_add_right _ _) within small
    simp only [enough, not_true, if_true, if_false, stop, bytes,
      Option.bind_some]
    rfl
  · simp only [enough, not_false_iff, if_true, if_false]
    rfl

/-- One group is put into a word on both sides, and the rest by induction. -/
theorem agrees_shiftIn (place : Fin 64) (word : UInt64) :
    Agrees (Checked.shiftIn place word) (shiftIn place word) := by
  induction place, word using shiftIn.induct with
  | case1 place word induction =>
      rw [Checked.shiftIn, shiftIn]
      refine agrees_readByte.bind stays_readByte fun byte => ?_
      have later := induction byte
      dsimp only at later ⊢
      split
      · exact .throw .overflow
      · split
        · exact .pure _
        · split
          · rename_i inside
            exact later inside
          · exact .throw .overflow

theorem agrees_readVarint : Agrees Checked.varint readVarint := by
  rw [← shiftIn_eq_readVarint]
  exact agrees_shiftIn 0 0

theorem agrees_readFlag : Agrees Checked.flag readFlag := by
  refine agrees_readByte.bind stays_readByte fun byte => ?_
  split
  · exact .pure false
  · split
    · exact .pure true
    · exact .throw (.badFlag byte)

theorem agrees_readText : Agrees Checked.text readText := by
  refine agrees_readVarint.bind stays_readVarint fun count => ?_
  refine (agrees_readBlock count).bind (stays_readBlock count.toNat)
    fun block => ?_
  cases String.fromUTF8? ⟨block⟩ with
  | some text => exact .pure text
  | none => exact .throw .invalidText

theorem agrees_read (shape : Shape) : Agrees shape.check shape.read := by
  cases shape with
  | byte => exact agrees_readByte.map stays_readByte _
  | long => exact agrees_readVarint.map stays_readVarint _
  | size => exact agrees_readVarint.map stays_readVarint _
  | flag => exact agrees_readFlag.map stays_readFlag _
  | text => exact agrees_readText.map stays_readText _
  | block count =>
      exact (agrees_readBlock count).map (stays_readBlock count.toNat) _

end Agrees

end ByteStream

end MaterialGraph
