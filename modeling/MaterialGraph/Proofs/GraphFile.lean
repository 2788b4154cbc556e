import MaterialGraph.GraphFile
import MaterialGraph.Proofs.Expression.Nesting

/-!
# Graph files that are read back

What is written into a graph file for a sound expression is read back, or
refused because the expression is nested too deep.
-/

namespace MaterialGraph

open ByteStream

namespace GraphFile

theorem answers_readHeader :
    Answers readHeader (magic ++ [version]) () none := by
  intro reader ahead
  have opening : readBlock magic.length reader =
      .ok magic.toArray (reader.advance magic.length) := by
    apply (accepts_readBlock magic.length reader magic.toArray _).mpr
    exact ⟨magic, (List.prefix_append magic [version]).trans ahead,
      ⟨rfl, rfl⟩, rfl⟩
  have versionAhead : [version] <+: (reader.advance magic.length).rest := by
    obtain ⟨others, same⟩ := ahead
    rw [Reader.rest_advance, ← same, List.append_assoc, List.drop_left]
    exact List.prefix_append [version] others
  have number := answers_readByte version _ versionAhead
  rw [Reader.advance_advance] at number
  simp only [readHeader, opening, number, if_true]
  rfl

/-- A file that does not start with the magic bytes has no header. -/
theorem decode_of_not_prefix {bytes : List UInt8}
    (foreign : ¬magic <+: bytes) : decode bytes = .error .badHeader := by
  have refused : ∃ left, readHeader (.ofList bytes) =
      .error .badHeader left := by
    cases block : readBlock magic.length (.ofList bytes) with
    | error reason left => exact ⟨left, by simp only [readHeader, block]⟩
    | ok found left =>
        obtain ⟨word, ahead, ⟨-, same⟩, -⟩ :=
          (accepts_readBlock magic.length _ found left).mp block
        have notMagic : found.toList ≠ magic := by
          intro isMagic
          rw [Reader.rest_ofList, ← same, isMagic] at ahead
          exact foreign ahead
        exact ⟨left, by simp only [readHeader, block, if_neg notMagic]⟩
  obtain ⟨left, refused⟩ := refused
  simp only [decode, read, Bind.bind, EStateM.bind, refused]

/-- What remains to be read of a file after its expression. -/
theorem read_eq :
    read = (do readHeader; Expression.decode) >>= fun expression =>
      readEnd >>= fun _ => pure expression := by
  rw [read, bind_assoc]

/-- A file is read back as a whole: behind the expression it ends. -/
theorem decode_encode {expression : Expression}
    (sound : expression.IsSound) :
    decode (encode expression) =
      if expression.height ≤ maxNesting then .ok expression
      else .error (.nestingTooDeep maxNesting) := by
  have limit : maxNesting + 1 + 0 = maxNesting + 1 := rfl
  have body : Answers Expression.decode expression.encode expression
      (refusalIn? (expression.parts 0)) :=
    expression.answers_decodeWithin limit sound.tagged sound.distinct
  have file : Answers (do readHeader; Expression.decode) (encode expression)
      expression (refusalIn? (expression.parts 0)) :=
    answers_readHeader.acceptBind body
  have ahead : encode expression <+:
      (Reader.ofList (encode expression)).rest :=
    (Reader.rest_ofList _).symm ▸ List.prefix_rfl
  rw [Expression.refusalIn?_parts expression (sound 0), Nat.zero_add,
    Expression.tooDeep?] at file
  by_cases fits : expression.height ≤ maxNesting
  · rw [if_pos fits] at file ⊢
    have found := file _ ahead
    have atEnd : ((Reader.ofList (encode expression)).advance
        (encode expression).length).atEnd = true := by
      simp [Reader.atEnd, Reader.ofList, Reader.advance]
    have ended : readEnd ((Reader.ofList (encode expression)).advance
        (encode expression).length) = .ok () _ :=
      if_pos atEnd
    simp only [decode, read_eq, Bind.bind, EStateM.bind] at found ⊢
    rw [found]
    dsimp only
    rw [ended]
    rfl
  · rw [if_neg fits] at file ⊢
    have whole : Answers read (encode expression) expression
        (some (.nestingTooDeep maxNesting)) := by
      rw [read_eq]
      exact file.refuseBind _
    obtain ⟨left, refused⟩ := whole _ ahead
    rw [decode, refused]

end GraphFile

end MaterialGraph
