import MaterialGraph.ByteStream.Error

/-!
# Reading numbers, truth values and text from bytes

A reader is a buffer with the position of the next byte.  Every read answers
with the reader it leaves behind, also when it fails, so that a failed read
may be followed by another one.  Three primitives touch the buffer: one byte,
a block of bytes, and the count of what is left; all other reads are composed
of them.

What is composed does not depend on the monad in which it is read.  A read
notes what it does, and it is left to the monad whether notes are kept: the
monad `Read` keeps none.
-/

namespace MaterialGraph

/-- A buffer and the position of its next unread byte. -/
structure Reader where
  bytes : Array UInt8
  position : Nat := 0
  deriving DecidableEq, Repr

namespace Reader

/-- A reader at the start of the given bytes. -/
def ofList (bytes : List UInt8) : Reader where
  bytes := bytes.toArray

/-- How many bytes have not been read. -/
def remaining (reader : Reader) : Nat :=
  reader.bytes.size - reader.position

/-- Whether every byte has been read. -/
def atEnd (reader : Reader) : Bool :=
  reader.bytes.size ≤ reader.position

/-- The unread bytes, in order. -/
def rest (reader : Reader) : List UInt8 :=
  reader.bytes.toList.drop reader.position

/-- The reader after `count` further bytes. -/
def advance (reader : Reader) (count : Nat) : Reader :=
  { reader with position := reader.position + count }

end Reader

/-- What may be noted about a read. -/
inductive Event
  /-- A group of a number is asked for. -/
  | group
  /-- A round of the loop over the objects of a container is begun. -/
  | round
  /-- So many bytes or objects are announced, and so many bytes are left. -/
  | declared (count remaining : Nat)
  /-- An expression inside so many direct calls is begun at a position. -/
  | begun (calls position : Nat)
  deriving DecidableEq, Repr

/-- The primitives of reading.  Notes do not change what is read. -/
class MonadRead (m : Type → Type) where
  nextByte : m UInt8
  nextBlock (count : Nat) : m (Array UInt8)
  note (event : Reader → Event) : m Unit

/-- A computation that consumes bytes and may refuse them. -/
abbrev Read := EStateM DecodeError Reader

namespace ByteStream

/-- The next byte; at the end the reader stays where it is. -/
def readByte : Read UInt8 := fun reader =>
  match reader.bytes[reader.position]? with
  | some byte => .ok byte (reader.advance 1)
  | none => .error .unexpectedEnd reader

/-- Exactly `count` bytes; if fewer are left the reader stays where it is. -/
def readBlock (count : Nat) : Read (Array UInt8) := fun reader =>
  if count ≤ reader.remaining then
    .ok (reader.bytes.extract reader.position (reader.position + count))
      (reader.advance count)
  else
    .error .unexpectedEnd reader

instance : MonadRead Read where
  nextByte := readByte
  nextBlock := readBlock
  note _ := pure ()

/-- The number of groups that a 64-bit number can fill. -/
def maxGroups : Nat := 10

section Scanning

open MonadRead

variable {m : Type → Type} [Monad m] [MonadExcept DecodeError m] [MonadRead m]

/-- A number written in at most `groups` groups of seven bits.  When one group
is left it stands for the top bit alone, and no group may follow it. -/
def scanGroups : (groups : Nat) → m Nat
  | 0 => throw .overflow
  | groups + 1 => do
      note fun _ => .group
      let byte ← nextByte
      let group := byte.toNat % 128
      if groups = 0 ∧ 1 < group then
        throw .overflow
      else if byte.toNat < 128 then
        return group
      else
        let higher ← scanGroups groups
        return group + 128 * higher

/-- A number below `2 ^ 64`.  Groups that are zero at the top are accepted. -/
def scanVarint : m UInt64 := do
  let number ← scanGroups maxGroups
  return UInt64.ofNat number

/-- Note how much is announced and how much is left. -/
def announce (count : UInt64) : m Unit :=
  note fun left => .declared count.toNat left.remaining

/-- A number below `2 ^ 32`. -/
def scanWord : m UInt32 := do
  let number ← scanVarint
  if number.toNat < UInt32.size then
    return UInt32.ofNat number.toNat
  else
    throw .overflow

/-- A truth value; only the bytes zero and one denote one. -/
def scanFlag : m Bool := do
  let byte ← nextByte
  if byte = 0 then
    return false
  else if byte = 1 then
    return true
  else
    throw (.badFlag byte)

/-- A text preceded by its byte count. -/
def scanText : m String := do
  let count ← scanVarint
  announce count
  let block ← nextBlock count.toNat
  match String.fromUTF8? ⟨block⟩ with
  | some text => return text
  | none => throw .invalidText

/-- `count` objects, one after the other, added to those in `done`. -/
def scanMany {α : Type} (scanOne : m α) : (count : Nat) → (done : Array α) →
    m (Array α)
  | 0, done => return done
  | count + 1, done => do
      note fun _ => .round
      let next ← scanOne
      scanMany scanOne count (done.push next)

end Scanning

def readGroups (groups : Nat) : Read Nat :=
  scanGroups groups

theorem readGroups_succ (groups : Nat) :
    readGroups (groups + 1) = (do
      let byte ← readByte
      let group := byte.toNat % 128
      if groups = 0 ∧ 1 < group then
        throw .overflow
      else if byte.toNat < 128 then
        return group
      else
        let higher ← readGroups groups
        return group + 128 * higher) :=
  rfl

def readVarint : Read UInt64 :=
  scanVarint

theorem readVarint_eq_map :
    readVarint = UInt64.ofNat <$> readGroups maxGroups :=
  rfl

def readWord : Read UInt32 :=
  scanWord

def readFlag : Read Bool :=
  scanFlag

def readText : Read String :=
  scanText

def readMany {α : Type} (readOne : Read α) (count : Nat) (done : Array α) :
    Read (Array α) :=
  scanMany readOne count done

theorem readMany_succ {α : Type} (readOne : Read α) (count : Nat)
    (done : Array α) :
    readMany readOne (count + 1) done = (do
      let next ← readOne
      readMany readOne count (done.push next)) :=
  rfl

end ByteStream

end MaterialGraph
