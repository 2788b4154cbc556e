import MaterialGraph.Proofs.ByteStream.Extension
import MaterialGraph.Proofs.Expression.Reading

/-!
# Stored objects in longer buffers

What follows an object does not matter to the reader of the object, and what
follows a fault does not mend it.  A reader tells that the bytes are at an end
only if the bytes that are missing may still make an object.
-/

namespace MaterialGraph

open ByteStream

theorem isStable_decodeType : IsStable ValueType.decode := by
  apply isStable_readByte.bind
  intro code
  split
  · exact .pure _
  · exact .throw (.unknownType code)

theorem isStable_decodeBinary32 : IsStable Binary32.decode :=
  isStable_readWord.bind fun bits => .pure (Binary32.mk bits)

theorem isStable_decodeContent (type : BasicType) :
    IsStable (BasicValue.decodeContent type) := by
  cases type with
  | bool => exact isStable_readFlag.map _
  | int => exact isStable_readWord.map _
  | float => exact isStable_decodeBinary32.map _
  | color =>
      exact isStable_decodeBinary32.bind fun red =>
        isStable_decodeBinary32.bind fun green =>
          isStable_decodeBinary32.bind fun blue =>
            .pure (BasicValue.color red green blue)
  | string => exact isStable_readText.map _
  | bsdf => exact .throw _
  | material => exact .throw _

theorem isStable_decodeValue : IsStable Value.decode := by
  apply isStable_readByte.bind
  intro code
  split
  · exact (isStable_decodeContent _).map _
  · exact .throw (.noValues code)

theorem isStable_decodeTag : IsStable Tag.decode := by
  apply isStable_readVarint.bind
  intro number
  split
  · exact .throw .invalidTag
  · exact .pure _

section Containers

variable {α : Type} {decodeChild : Read α}

theorem isStable_decodeEntries (stable : IsStable decodeChild) (count : Nat)
    (done : Named α) :
    IsStable (Named.decodeEntries decodeChild count done) := by
  induction count generalizing done with
  | zero => exact .pure done
  | succ count induction =>
      apply isStable_readText.bind
      intro name
      apply stable.bind
      intro child
      split
      · rename_i extended added
        exact induction extended
      · exact .throw (.duplicateName name)

theorem isStable_decodeNamed (stable : IsStable decodeChild) :
    IsStable (Named.decode decodeChild) :=
  isStable_readVarint.bind fun count =>
    (isStable_decodeEntries stable count.toNat {}).bind fun named =>
      .pure named.toList

end Containers

theorem isStable_decodeWithin (levels : Nat) :
    IsStable (Expression.decodeWithin levels) := by
  induction levels with
  | zero => exact .throw (.nestingTooDeep maxNesting)
  | succ levels induction =>
      apply isStable_readByte.bind
      intro byte
      split
      · exact .throw (.invalidKind byte)
      · rename_i kind known
        apply isStable_decodeType.bind
        intro type
        cases kind with
        | constant => exact isStable_decodeValue.map _
        | call => exact isStable_decodeTag.map _
        | parameter => exact isStable_readVarint.map _
        | directCall =>
            exact isStable_decodeTag.bind fun tag =>
              (isStable_decodeNamed induction).map _
        | temporary => exact isStable_readVarint.map _

theorem isStable_decodeExpression : IsStable Expression.decode :=
  isStable_decodeWithin (maxNesting + 1)

theorem isStable_decodeArguments : IsStable Arguments.decode :=
  isStable_decodeNamed isStable_decodeExpression

theorem isStable_decodeAnnotationCall : IsStable AnnotationCall.decode :=
  isStable_readText.bind fun name =>
    isStable_decodeArguments.bind fun arguments =>
      .pure (AnnotationCall.mk name arguments)

theorem isStable_decodeAnnotationBlock : IsStable AnnotationBlock.decode :=
  isStable_readVarint.bind fun count =>
    (isStable_readMany isStable_decodeAnnotationCall count.toNat #[]).bind
      fun calls => .pure calls.toList

theorem isStable_decodeAnnotationTable : IsStable AnnotationTable.decode :=
  isStable_decodeNamed isStable_decodeAnnotationBlock

/-- Each of the five readers is stable. -/
theorem isStable_decode (form : Form) : IsStable form.decode := by
  cases form with
  | expression => exact isStable_decodeExpression.map _
  | arguments => exact isStable_decodeArguments.map _
  | annotationCall => exact isStable_decodeAnnotationCall.map _
  | annotationBlock => exact isStable_decodeAnnotationBlock.map _
  | annotationTable => exact isStable_decodeAnnotationTable.map _

theorem position_le_length_of_decode {form : Form} {bytes : List UInt8}
    {tree : Tree} {left : Reader}
    (read : form.decode (.ofList bytes) = .ok tree left) :
    left.position ≤ bytes.length :=
  (((accepts_decode form).ofList bytes tree left.position).mp
    ⟨left, read, rfl⟩).1

/-- An object that is read from some bytes is also read, and ends at the same
place, if the bytes are continued; a refusal stays as it is, unless the bytes
ended too early.  Where all of the continued bytes are one object, the bytes
before the continuation end too early and are refused for nothing else. -/
theorem decode_append (form : Form) (bytes following : List UInt8) :
    (∀ tree left, form.decode (.ofList bytes) = .ok tree left →
      ∃ left', form.decode (.ofList (bytes ++ following)) = .ok tree left' ∧
        left'.position = left.position) ∧
    (∀ reason left, form.decode (.ofList bytes) = .error reason left →
      reason ≠ .unexpectedEnd →
        ∃ left', form.decode (.ofList (bytes ++ following)) =
          .error reason left') ∧
    (∀ tree left, form.decode (.ofList (bytes ++ following)) = .ok tree left →
      left.position = (bytes ++ following).length → following ≠ [] →
        ∃ left', form.decode (.ofList bytes) = .error .unexpectedEnd left') := by
  obtain ⟨success, failure⟩ :=
    (isStable_decode form).ofList_append bytes following
  refine ⟨?_, ?_, ?_⟩
  · intro tree left read
    exact ⟨_, success tree left read, Reader.position_extend left following⟩
  · intro reason left refused different
    exact ⟨_, failure reason left refused different⟩
  · intro tree left whole atEnd more
    cases part : form.decode (.ofList bytes) with
    | ok tree' left' =>
        -- an object within the bytes would leave the continuation over
        have inside := position_le_length_of_decode part
        have again := success tree' left' part
        rw [whole] at again
        cases again
        have added : 0 < following.length := List.length_pos_iff.mpr more
        rw [Reader.position_extend, List.length_append] at atEnd
        omega
    | error reason left' =>
        by_cases ended : reason = .unexpectedEnd
        · exact ⟨left', by rw [ended]⟩
        · have again := failure reason left' part ended
          rw [whole] at again
          cases again

end MaterialGraph
