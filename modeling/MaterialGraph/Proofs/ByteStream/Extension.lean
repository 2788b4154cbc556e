import MaterialGraph.Proofs.ByteStream.Language

/-!
# Readers of buffers that are continued

A reader looks at the bytes that it consumes and at no others.  When a buffer
is continued, what was read from it is read again and ends at the same place,
and a refusal stays the same refusal, unless it was that the bytes came to an
end.  The three primitive readers have this property, and composing readers
keeps it.
-/

namespace MaterialGraph

namespace Reader

/-- The reader at the same position of a buffer that goes on. -/
def extend (reader : Reader) (following : List UInt8) : Reader :=
  { reader with bytes := reader.bytes ++ following.toArray }

@[simp] theorem position_extend (reader : Reader) (following : List UInt8) :
    (reader.extend following).position = reader.position :=
  rfl

theorem extend_advance (reader : Reader) (count : Nat)
    (following : List UInt8) :
    (reader.advance count).extend following =
      (reader.extend following).advance count :=
  rfl

theorem extend_ofList (bytes following : List UInt8) :
    (Reader.ofList bytes).extend following =
      .ofList (bytes ++ following) := by
  simp [Reader.ofList, Reader.extend]

end Reader

namespace ByteStream

/-- Bytes that are added to the buffer change neither a success nor a refusal
other than for the end of the bytes. -/
structure IsStable {α : Type} (read : Read α) : Prop where
  success : ∀ {reader : Reader} {found : α} {left : Reader},
    read reader = .ok found left → ∀ following,
      read (reader.extend following) = .ok found (left.extend following)
  failure : ∀ {reader : Reader} {reason : DecodeError} {left : Reader},
    read reader = .error reason left → reason ≠ .unexpectedEnd →
      ∀ following,
        read (reader.extend following) = .error reason (left.extend following)

namespace IsStable

variable {α β : Type} {read : Read α}

theorem pure (object : α) : IsStable (pure object) := by
  constructor
  · intro reader found left result following
    cases result
    rfl
  · intro reader reason left result
    cases result

theorem throw (reason : DecodeError) :
    IsStable (throw reason : Read α) := by
  constructor
  · intro reader found left result
    cases result
  · intro reader found left result different following
    cases result
    rfl

theorem bind {next : α → Read β} (stable : IsStable read)
    (nextStable : ∀ object, IsStable (next object)) :
    IsStable (read >>= next) := by
  constructor
  · intro reader found left result following
    cases first : read reader with
    | error reason between =>
        simp only [Bind.bind, EStateM.bind, first] at result
        cases result
    | ok middle between =>
        simp only [Bind.bind, EStateM.bind, first] at result
        simp only [Bind.bind, EStateM.bind, stable.success first following]
        exact (nextStable middle).success result following
  · intro reader reason left result different following
    cases first : read reader with
    | error reason' between =>
        simp only [Bind.bind, EStateM.bind, first] at result
        cases result
        simp only [Bind.bind, EStateM.bind,
          stable.failure first different following]
    | ok middle between =>
        simp only [Bind.bind, EStateM.bind, first] at result
        simp only [Bind.bind, EStateM.bind, stable.success first following]
        exact (nextStable middle).failure result different following

theorem map (stable : IsStable read) (change : α → β) :
    IsStable (change <$> read) :=
  stable.bind fun object => .pure (change object)

/-- A stable reader at the start of bytes that are continued. -/
theorem ofList_append (stable : IsStable read) (bytes following : List UInt8) :
    (∀ found left, read (.ofList bytes) = .ok found left →
      read (.ofList (bytes ++ following)) =
        .ok found (left.extend following)) ∧
    (∀ reason left, read (.ofList bytes) = .error reason left →
      reason ≠ .unexpectedEnd →
        read (.ofList (bytes ++ following)) =
          .error reason (left.extend following)) := by
  rw [← Reader.extend_ofList]
  constructor
  · intro found left result
    exact stable.success result following
  · intro reason left result different
    exact stable.failure result different following

end IsStable

theorem isStable_readByte : IsStable readByte := by
  constructor
  · intro reader found left result following
    unfold readByte at result
    split at result
    · rename_i byte present
      cases result
      have inside : reader.position < reader.bytes.size :=
        (Array.getElem?_eq_some_iff.mp present).1
      have same : (reader.extend following).bytes[reader.position]? =
          some found := by
        rw [← present]
        exact Array.getElem?_append_left inside
      simp only [readByte, Reader.position_extend, same,
        Reader.extend_advance]
    · cases result
  · intro reader reason left result different
    unfold readByte at result
    split at result
    · cases result
    · cases result
      exact (different rfl).elim

theorem isStable_readBlock (count : Nat) : IsStable (readBlock count) := by
  constructor
  · intro reader found left result following
    unfold readBlock at result
    by_cases enough : count ≤ reader.remaining
    · rw [if_pos enough] at result
      cases result
      have longer : count ≤ (reader.extend following).remaining := by
        simp only [Reader.remaining, Reader.extend,
          Array.size_append] at enough ⊢
        omega
      have same : (reader.extend following).bytes.extract reader.position
            (reader.position + count) =
          reader.bytes.extract reader.position (reader.position + count) := by
        by_cases none : count = 0
        · subst none
          rw [Nat.add_zero,
            Array.extract_empty_of_stop_le_start (Nat.le_refl _),
            Array.extract_empty_of_stop_le_start (Nat.le_refl _)]
        · have inside : reader.position + count ≤ reader.bytes.size := by
            simp only [Reader.remaining] at enough
            omega
          simp [Reader.extend, Array.extract_append,
            Nat.sub_eq_zero_of_le inside]
      unfold readBlock
      rw [if_pos longer, Reader.position_extend, same, Reader.extend_advance]
    · rw [if_neg enough] at result
      cases result
  · intro reader reason left result different
    unfold readBlock at result
    split at result
    · cases result
    · cases result
      exact (different rfl).elim

theorem isStable_readGroups (groups : Nat) : IsStable (readGroups groups) := by
  induction groups with
  | zero => exact .throw .overflow
  | succ groups induction =>
      apply isStable_readByte.bind
      intro byte
      dsimp only
      split
      · exact .throw .overflow
      · split
        · exact .pure _
        · exact induction.bind fun higher => .pure _

theorem isStable_readVarint : IsStable readVarint :=
  (isStable_readGroups maxGroups).bind fun number =>
    .pure (UInt64.ofNat number)

theorem isStable_readWord : IsStable readWord := by
  apply isStable_readVarint.bind
  intro number
  split
  · exact .pure _
  · exact .throw .overflow

theorem isStable_readFlag : IsStable readFlag := by
  apply isStable_readByte.bind
  intro byte
  split
  · exact .pure false
  · split
    · exact .pure true
    · exact .throw (.badFlag byte)

theorem isStable_readText : IsStable readText := by
  apply isStable_readVarint.bind
  intro count
  apply (isStable_readBlock count.toNat).bind
  intro block
  split
  · exact .pure _
  · exact .throw .invalidText

theorem isStable_readMany {α : Type} {readOne : Read α}
    (stable : IsStable readOne) (count : Nat) (done : Array α) :
    IsStable (readMany readOne count done) := by
  induction count generalizing done with
  | zero => exact .pure done
  | succ count induction =>
      exact stable.bind fun next => induction (done.push next)

end ByteStream

end MaterialGraph
