import MaterialGraph.Proofs.ByteStream.Checked

/-!
# Calls one after the other

Who reads may call for items of any shapes and any lengths, and may go on after
a call that has failed.  The position never decreases and never exceeds the
size of the buffer, and no sum, difference or block on the way leaves its range.
-/

namespace MaterialGraph

namespace ByteStream

namespace Shape

/-- The answers to calls, each with the reader that it leaves to the next. -/
def callAll : List Shape → Reader → List (Except DecodeError Item × Reader)
  | [], _ => []
  | shape :: rest, reader =>
      let answered := answer shape.read reader
      answered :: callAll rest answered.2

/-- The same calls with checked arithmetic; a fault ends all of them. -/
def checkAll : List Shape → WordReader →
    Option (List (Except DecodeError Item × WordReader))
  | [], _ => some []
  | shape :: rest, reader => do
      let answered ← shape.check.run reader
      let others ← checkAll rest answered.2
      return answered :: others

/-- The reader before the first call and after each of them. -/
def readers (shapes : List Shape) (reader : Reader) : List Reader :=
  reader :: (callAll shapes reader).map Prod.snd

variable {shape : Shape} {shapes : List Shape} {reader : Reader}

theorem readers_cons :
    readers (shape :: shapes) reader =
      reader :: readers shapes (answer shape.read reader).2 :=
  rfl

/-- Every reader leads to all later ones. -/
theorem pairwise_readers (inside : reader.IsInside) :
    (readers shapes reader).Pairwise Reader.LeadsTo := by
  induction shapes generalizing reader with
  | nil => exact List.pairwise_singleton _ reader
  | cons shape shapes induction =>
      have first := stays_read shape reader inside
      have others := induction first.inside
      rw [readers_cons, List.pairwise_cons]
      refine ⟨fun later member => ?_, others⟩
      rcases List.mem_cons.mp member with rfl | after
      · exact first
      · exact first.trans (List.rel_of_pairwise_cons others after)

theorem leadsTo_of_mem_readers (inside : reader.IsInside) {later : Reader}
    (member : later ∈ readers shapes reader) : reader.LeadsTo later := by
  rcases List.mem_cons.mp member with rfl | after
  · exact .refl inside
  · exact List.rel_of_pairwise_cons (pairwise_readers inside) after

theorem length_callAll :
    (callAll shapes reader).length = shapes.length := by
  induction shapes generalizing reader with
  | nil => rfl
  | cons shape shapes induction => exact congrArg (· + 1) induction

/-- Calls with checked arithmetic are answered like calls without it. -/
theorem checkAll_eq (inside : reader.IsInside)
    (small : reader.bytes.size < UInt64.size) :
    checkAll shapes (.ofReader reader) =
      some ((callAll shapes reader).map fun answered =>
        (answered.1, .ofReader answered.2)) := by
  induction shapes generalizing reader with
  | nil => rfl
  | cons shape shapes induction =>
      have step := stays_read shape reader inside
      have stillSmall :
          (answer shape.read reader).2.bytes.size < UInt64.size := by
        rwa [step.bytes]
      simp only [checkAll, agrees_read shape reader inside small,
        Option.bind_eq_bind, Option.bind_some, induction step.inside stillSmall]
      rfl

/-- A byte or a block that is refused leaves the reader where it is. -/
theorem read_eq_error {reason : DecodeError} {left : Reader}
    (primitive : shape = .byte ∨ ∃ count, shape = .block count)
    (refused : shape.read reader = .error reason left) : left = reader := by
  rcases primitive with rfl | ⟨count, rfl⟩
  · exact (readByte_eq_error (eq_error_of_map refused)).2
  · exact (readBlock_eq_error (eq_error_of_map refused)).2

/-- A block that is found is the part of the buffer that it stands for. -/
theorem read_block_eq_ok {count : UInt64} {found : Item} {left : Reader}
    (accepted : (block count).read reader = .ok found left) :
    left.position = reader.position + count.toNat ∧
      found = .block (reader.bytes.extract reader.position
        (reader.position + count.toNat)).toList := by
  simp only [read, Functor.map, EStateM.map, readBlock] at accepted
  by_cases enough : count.toNat ≤ reader.remaining
  · rw [if_pos enough] at accepted
    cases accepted
    exact ⟨rfl, rfl⟩
  · rw [if_neg enough] at accepted
    cases accepted

/-- Whatever is called for, and also after calls that have failed: a reader of
some bytes never goes back and never leaves them, and what it has passed and
what is left make up the buffer.  A byte or a block that is refused does not
move it, and a block that is found lies inside the buffer.  In machine words no
sum and no difference leaves its range, neither in a block nor within a number
or a text. -/
theorem calls_stay_inside (bytes : Array UInt8) (shapes : List Shape) :
    (readers shapes ⟨bytes, 0⟩).length = shapes.length + 1 ∧
    ((readers shapes ⟨bytes, 0⟩).map Reader.position).Pairwise (· ≤ ·) ∧
    (∀ reader ∈ readers shapes ⟨bytes, 0⟩,
      reader.bytes = bytes ∧ reader.position ≤ bytes.size ∧
      reader.position + reader.remaining = bytes.size ∧
      (reader.atEnd ↔ reader.remaining = 0) ∧
      (∀ (shape : Shape) (reason : DecodeError) (left : Reader),
        shape = .byte ∨ (∃ count, shape = .block count) →
          shape.read reader = .error reason left → left = reader) ∧
      ∀ count found left, (block count).read reader = .ok found left →
        left.position = reader.position + count.toNat ∧
        reader.position + count.toNat ≤ bytes.size ∧
        found = .block (bytes.extract reader.position
          (reader.position + count.toNat)).toList) ∧
    (bytes.size < UInt64.size →
      checkAll shapes ⟨bytes, 0⟩ =
        some ((callAll shapes ⟨bytes, 0⟩).map fun answered =>
          (answered.1, .ofReader answered.2))) := by
  have inside : (⟨bytes, 0⟩ : Reader).IsInside := Nat.zero_le _
  refine ⟨?_, ?_, ?_, fun small => checkAll_eq inside small⟩
  · rw [readers, List.length_cons, List.length_map, length_callAll]
  · rw [List.pairwise_map]
    exact (pairwise_readers inside).imp fun leads => leads.position
  · intro reader member
    have leads := leadsTo_of_mem_readers inside member
    have same : reader.bytes = bytes := leads.bytes
    have whole := leads.inside.position_add_remaining
    rw [same] at whole
    refine ⟨same, same ▸ leads.inside, whole, reader.atEnd_iff_remaining_eq_zero,
      fun _ _ _ => read_eq_error, fun count found left accepted => ?_⟩
    obtain ⟨moved, part⟩ := read_block_eq_ok accepted
    have step := stays_read (.block count) reader leads.inside
    rw [answer, accepted] at step
    have within := step.inside
    rw [Reader.IsInside, step.bytes, same, moved] at within
    exact ⟨moved, within, same ▸ part⟩

/-- A text and a block with the greatest length that there is are refused, the
byte behind the length is still found, and another byte is refused. -/
theorem calls_stay_inside_greatestLength :
    #[255, 255, 255, 255, 255, 255, 255, 255, 255, 1, (7 : UInt8)].size <
      UInt64.size ∧
    ((checkAll [.text, .block 18446744073709551615, .byte, .byte]
      ⟨#[255, 255, 255, 255, 255, 255, 255, 255, 255, 1, 7], 0⟩).map
        fun answers => answers.map fun answered =>
          (answered.1, answered.2.position)) =
      some [(.error .unexpectedEnd, 10), (.error .unexpectedEnd, 10),
        (.ok (.byte 7), 11), (.error .unexpectedEnd, 11)] := by
  have small : #[255, 255, 255, 255, 255, 255, 255, 255, 255, 1, (7 : UInt8)].size <
      UInt64.size := by
    decide
  obtain ⟨-, -, -, checked⟩ := calls_stay_inside
    #[255, 255, 255, 255, 255, 255, 255, 255, 255, 1, 7]
    [.text, .block 18446744073709551615, .byte, .byte]
  refine ⟨small, ?_⟩
  rw [checked small]
  rfl

end Shape

end ByteStream

end MaterialGraph
