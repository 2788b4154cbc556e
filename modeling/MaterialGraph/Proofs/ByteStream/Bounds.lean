import MaterialGraph.ByteStream.Item

/-!
# Readers stay inside their buffer

A reader never changes its buffer, never goes back, and never goes beyond the
end of the buffer, whether a read succeeds or fails.  The two primitive readers
that move have this property, and composing readers keeps it.  So it holds of
calls of any shapes one after the other, also of calls that follow a failed
one.
-/

namespace MaterialGraph

namespace Reader

/-- The position is in the buffer or right behind it. -/
def IsInside (reader : Reader) : Prop := reader.position ≤ reader.bytes.size

/-- The same buffer, no further back, and still inside. -/
structure LeadsTo (reader later : Reader) : Prop where
  bytes : later.bytes = reader.bytes
  position : reader.position ≤ later.position
  inside : later.IsInside

namespace LeadsTo

variable {reader middle later : Reader}

theorem refl (inside : reader.IsInside) : reader.LeadsTo reader :=
  ⟨rfl, Nat.le_refl _, inside⟩

theorem trans (first : reader.LeadsTo middle) (second : middle.LeadsTo later) :
    reader.LeadsTo later :=
  ⟨second.bytes.trans first.bytes, Nat.le_trans first.position second.position,
    second.inside⟩

/-- As many bytes are passed as are left. -/
theorem advance {count : Nat} (inside : reader.IsInside)
    (enough : count ≤ reader.remaining) :
    reader.LeadsTo (reader.advance count) := by
  refine ⟨rfl, Nat.le_add_right _ _, ?_⟩
  simp only [IsInside, Reader.advance, remaining] at inside enough ⊢
  omega

end LeadsTo

/-- Inside its buffer a reader has passed all bytes that are not left. -/
theorem IsInside.position_add_remaining {reader : Reader}
    (inside : reader.IsInside) :
    reader.position + reader.remaining = reader.bytes.size :=
  Nat.add_sub_of_le inside

theorem atEnd_iff_remaining_eq_zero (reader : Reader) :
    reader.atEnd ↔ reader.remaining = 0 := by
  simp [atEnd, remaining, Nat.sub_eq_zero_iff_le]

end Reader

namespace ByteStream

/-- What a read answers, and the reader that it leaves behind. -/
def answer {α : Type} (read : Read α) (reader : Reader) :
    Except DecodeError α × Reader :=
  match read reader with
  | .ok found left => (.ok found, left)
  | .error reason left => (.error reason, left)

/-- From inside its buffer a reader leads to where the read leaves it. -/
def Stays {α : Type} (read : Read α) : Prop :=
  ∀ reader : Reader, reader.IsInside → reader.LeadsTo (answer read reader).2

section Stays

variable {α β : Type} {read : Read α}

theorem Stays.pure (object : α) : Stays (pure object) :=
  fun _ inside => .refl inside

theorem Stays.throw (reason : DecodeError) : Stays (throw reason : Read α) :=
  fun _ inside => .refl inside

theorem Stays.bind {next : α → Read β} (stays : Stays read)
    (nextStays : ∀ object, Stays (next object)) : Stays (read >>= next) := by
  intro reader inside
  have first := stays reader inside
  cases result : read reader with
  | error reason left =>
      simp only [answer, result] at first
      simp only [answer, Bind.bind, EStateM.bind, result]
      exact first
  | ok object middle =>
      simp only [answer, result] at first
      have second := nextStays object middle first.inside
      simp only [answer, Bind.bind, EStateM.bind, result]
      exact first.trans second

theorem Stays.map (stays : Stays read) (change : α → β) :
    Stays (change <$> read) :=
  stays.bind fun object => .pure (change object)

theorem stays_readByte : Stays readByte := by
  intro reader inside
  unfold answer readByte
  cases next : reader.bytes[reader.position]? with
  | none => exact .refl inside
  | some byte =>
      have before : reader.position < reader.bytes.size :=
        (Array.getElem?_eq_some_iff.mp next).1
      refine .advance inside ?_
      simp only [Reader.remaining]
      omega

theorem stays_readBlock (count : Nat) : Stays (readBlock count) := by
  intro reader inside
  unfold answer readBlock
  by_cases enough : count ≤ reader.remaining
  · rw [if_pos enough]
    exact .advance inside enough
  · rw [if_neg enough]
    exact .refl inside

theorem stays_readGroups (groups : Nat) : Stays (readGroups groups) := by
  induction groups with
  | zero => exact .throw .overflow
  | succ groups induction =>
      apply stays_readByte.bind
      intro byte
      dsimp only
      split
      · exact .throw .overflow
      · split
        · exact .pure _
        · exact induction.bind fun higher => .pure _

theorem stays_readVarint : Stays readVarint :=
  (stays_readGroups maxGroups).bind fun number => .pure (UInt64.ofNat number)

theorem stays_readFlag : Stays readFlag := by
  apply stays_readByte.bind
  intro byte
  split
  · exact .pure false
  · split
    · exact .pure true
    · exact .throw (.badFlag byte)

theorem stays_readText : Stays readText := by
  apply stays_readVarint.bind
  intro count
  apply (stays_readBlock count.toNat).bind
  intro block
  split
  · exact .pure _
  · exact .throw .invalidText

theorem stays_read (shape : Shape) : Stays shape.read := by
  cases shape with
  | byte => exact stays_readByte.map _
  | long => exact stays_readVarint.map _
  | size => exact stays_readVarint.map _
  | flag => exact stays_readFlag.map _
  | text => exact stays_readText.map _
  | block count => exact (stays_readBlock count.toNat).map _

end Stays

theorem eq_error_of_map {α β : Type} {read : Read α} {change : α → β}
    {reader left : Reader} {reason : DecodeError}
    (refused : (change <$> read) reader = .error reason left) :
    read reader = .error reason left := by
  simp only [Functor.map, EStateM.map] at refused
  cases result : read reader with
  | ok found after =>
      rw [result] at refused
      cases refused
  | error reason' after =>
      rw [result] at refused
      cases refused
      rfl

/-- At the end a reader stays where it is. -/
theorem readByte_eq_error {reader left : Reader} {reason : DecodeError}
    (refused : readByte reader = .error reason left) :
    reason = .unexpectedEnd ∧ left = reader := by
  unfold readByte at refused
  split at refused
  · cases refused
  · cases refused
    exact ⟨rfl, rfl⟩

/-- Where not enough bytes are left a reader stays where it is. -/
theorem readBlock_eq_error {count : Nat} {reader left : Reader}
    {reason : DecodeError}
    (refused : readBlock count reader = .error reason left) :
    reason = .unexpectedEnd ∧ left = reader := by
  unfold readBlock at refused
  split at refused
  · cases refused
  · cases refused
    exact ⟨rfl, rfl⟩

end ByteStream

end MaterialGraph
