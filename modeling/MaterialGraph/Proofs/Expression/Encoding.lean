import MaterialGraph.Proofs.Expression.Grammar

/-!
# What is written is a word

The bytes of an object whose parts can all be stored are a word of the grammar.
In turn every object that some word denotes has only parts that can be stored.
-/

namespace MaterialGraph

open ByteStream

theorem denotesTag_encode {tag : Tag} (notNull : tag ≠ Tag.null) :
    DenotesTag tag.encode tag :=
  .number (denotesNumber_encodeVarint tag.number.toNat_lt_size) notNull

theorem denotesNumber_encodeIndex (index : UInt64) :
    DenotesNumber (encodeVarint index.toNat) index.toNat :=
  denotesNumber_encodeVarint index.toNat_lt_size

mutual

theorem denotesExpression_encode (expression : Expression) (calls : Nat)
    (storable : ∀ part ∈ expression.parts calls, part.IsStorable) :
    DenotesExpression expression.encode expression calls := by
  cases expression with
  | constant type value =>
      simp only [Expression.parts, List.forall_mem_cons] at storable
      obtain ⟨root, typed, valued, -⟩ := storable
      exact .constant root.nested (denotesType_encode typed.basic)
        (denotesValue_encode valued.basic valued.sized)
  | call type tag =>
      simp only [Expression.parts, List.forall_mem_cons] at storable
      obtain ⟨root, typed, tagged, -⟩ := storable
      exact .call root.nested (denotesType_encode typed.basic)
        (denotesTag_encode tagged.tagged)
  | parameter type index =>
      simp only [Expression.parts, List.forall_mem_cons] at storable
      obtain ⟨root, typed, -⟩ := storable
      exact .parameter root.nested (denotesType_encode typed.basic)
        (denotesNumber_encodeIndex index)
  | directCall type tag arguments =>
      simp only [Expression.parts, List.forall_mem_cons] at storable
      obtain ⟨root, typed, tagged, names, entries⟩ := storable
      have sized : arguments.length < UInt64.size := by
        simpa [Part.IsSized] using names.sized
      simp only [Expression.encode, List.append_assoc]
      exact .directCall root.nested (denotesType_encode typed.basic)
        (denotesTag_encode tagged.tagged)
        (.counted (denotesNumber_encodeVarint sized)
          (denotesEntries_encode arguments (calls + 1) entries) names.distinct)
  | temporary type index =>
      simp only [Expression.parts, List.forall_mem_cons] at storable
      obtain ⟨root, typed, -⟩ := storable
      exact .temporary root.nested (denotesType_encode typed.basic)
        (denotesNumber_encodeIndex index)

theorem denotesEntries_encode (arguments : Arguments) (calls : Nat)
    (storable : ∀ part ∈ Expression.entryParts calls arguments,
      part.IsStorable) :
    DenotesEntries DenotesExpression (Expression.encodeEntries arguments)
      arguments calls := by
  cases arguments with
  | nil => exact .nil
  | cons entry rest =>
      obtain ⟨name, expression⟩ := entry
      simp only [Expression.entryParts, List.forall_mem_cons,
        List.forall_mem_append] at storable
      obtain ⟨named, inside, others⟩ := storable
      exact .cons (denotesText_encodeText named.sized)
        (denotesExpression_encode expression calls inside)
        (denotesEntries_encode rest calls others)

end

theorem denotesArguments_encode {arguments : Arguments}
    (storable : ∀ part ∈ Arguments.parts arguments, part.IsStorable) :
    DenotesArguments (Arguments.encode arguments) arguments := by
  simp only [Arguments.parts, List.forall_mem_cons] at storable
  obtain ⟨names, entries⟩ := storable
  have sized : arguments.length < UInt64.size := by
    simpa [Part.IsSized] using names.sized
  exact .counted (denotesNumber_encodeVarint sized)
    (denotesEntries_encode arguments 0 entries) names.distinct

theorem denotesAnnotationCall_encode {call : AnnotationCall}
    (storable : ∀ part ∈ call.parts, part.IsStorable) :
    DenotesAnnotationCall call.encode call := by
  simp only [AnnotationCall.parts, List.forall_mem_cons] at storable
  exact .mk (denotesText_encodeText storable.1.sized)
    (denotesArguments_encode storable.2)

theorem denotesCalls_encode {calls : AnnotationBlock}
    (storable : ∀ part ∈ calls.flatMap AnnotationCall.parts, part.IsStorable) :
    DenotesCalls (calls.flatMap AnnotationCall.encode) calls := by
  induction calls with
  | nil => exact .nil
  | cons call calls induction =>
      simp only [List.flatMap_cons, List.forall_mem_append] at storable
      exact .cons (denotesAnnotationCall_encode storable.1)
        (induction storable.2)

theorem denotesAnnotationBlock_encode {block : AnnotationBlock}
    (storable : ∀ part ∈ AnnotationBlock.parts block, part.IsStorable) :
    DenotesAnnotationBlock (AnnotationBlock.encode block) block := by
  simp only [AnnotationBlock.parts, List.forall_mem_cons] at storable
  exact .counted (denotesNumber_encodeVarint storable.1.sized)
    (denotesCalls_encode storable.2)

theorem denotesBlocks_encode {table : AnnotationTable}
    (storable : ∀ part ∈ table.flatMap fun entry =>
      Part.name entry.1 :: AnnotationBlock.parts entry.2, part.IsStorable) :
    DenotesEntries (fun word block _ => DenotesAnnotationBlock word block)
      (table.flatMap fun entry =>
        encodeText entry.1 ++ AnnotationBlock.encode entry.2) table 0 := by
  induction table with
  | nil => exact .nil
  | cons entry table induction =>
      simp only [List.flatMap_cons, List.cons_append, List.forall_mem_cons,
        List.forall_mem_append] at storable
      obtain ⟨named, inside, others⟩ := storable
      rw [List.flatMap_cons, List.append_assoc]
      exact .cons (denotesText_encodeText named.sized)
        (denotesAnnotationBlock_encode inside) (induction others)

theorem denotesAnnotationTable_encode {table : AnnotationTable}
    (storable : ∀ part ∈ AnnotationTable.parts table, part.IsStorable) :
    DenotesAnnotationTable (AnnotationTable.encode table) table := by
  simp only [AnnotationTable.parts, List.forall_mem_cons] at storable
  obtain ⟨names, entries⟩ := storable
  have sized : table.length < UInt64.size := by
    simpa [Part.IsSized] using names.sized
  exact .counted (denotesNumber_encodeVarint sized)
    (denotesBlocks_encode entries) names.distinct

/-- What is written for an object that can be stored denotes the object. -/
theorem denotes_encode {tree : Tree} (storable : tree.IsStorable) :
    Denotes tree.encode tree := by
  rw [Tree.isStorable_iff] at storable
  cases tree with
  | expression root => exact denotesExpression_encode root 0 storable
  | arguments entries => exact denotesArguments_encode storable
  | annotationCall call => exact denotesAnnotationCall_encode storable
  | annotationBlock calls => exact denotesAnnotationBlock_encode storable
  | annotationTable entries => exact denotesAnnotationTable_encode storable

mutual

theorem DenotesExpression.storable {word : List UInt8} {expression : Expression}
    {calls : Nat} (denotes : DenotesExpression word expression calls) :
    ∀ part ∈ expression.parts calls, part.IsStorable := by
  cases denotes with
  | constant nested typed valued =>
      simpa [Expression.parts] using ⟨Part.IsStorable.expression nested,
        Part.IsStorable.type typed.isBasic,
        Part.IsStorable.value valued.isBasic valued.textSize_lt⟩
  | call nested typed tagged =>
      cases tagged with
      | number number notNull =>
          simpa [Expression.parts] using ⟨Part.IsStorable.expression nested,
            Part.IsStorable.type typed.isBasic, Part.IsStorable.tag notNull⟩
  | parameter nested typed indexed =>
      simpa [Expression.parts] using ⟨Part.IsStorable.expression nested,
        Part.IsStorable.type typed.isBasic⟩
  | directCall nested typed tagged denotes =>
      cases tagged with
      | number number notNull =>
          cases denotes with
          | counted size entries distinct =>
              have inside := DenotesEntries.storable entries
              simp only [Expression.parts, List.forall_mem_cons]
              exact ⟨.expression nested, .type typed.isBasic, .tag notNull,
                .names distinct (by simpa using size.lt_size), inside⟩
  | temporary nested typed indexed =>
      simpa [Expression.parts] using ⟨Part.IsStorable.expression nested,
        Part.IsStorable.type typed.isBasic⟩

theorem DenotesEntries.storable {word : List UInt8} {arguments : Arguments}
    {calls : Nat}
    (denotes : DenotesEntries DenotesExpression word arguments calls) :
    ∀ part ∈ Expression.entryParts calls arguments, part.IsStorable := by
  cases denotes with
  | nil => simp [Expression.entryParts]
  | cons named denotes others =>
      have inside := DenotesExpression.storable denotes
      have outside := DenotesEntries.storable others
      simp only [Expression.entryParts, List.forall_mem_cons,
        List.forall_mem_append]
      exact ⟨.name named.lt_size, inside, outside⟩

end

theorem DenotesArguments.storable {word : List UInt8} {arguments : Arguments}
    (denotes : DenotesArguments word arguments) :
    ∀ part ∈ Arguments.parts arguments, part.IsStorable := by
  cases denotes with
  | counted size entries distinct =>
      simp only [Arguments.parts, List.forall_mem_cons]
      exact ⟨.names distinct (by simpa using size.lt_size), entries.storable⟩

theorem DenotesAnnotationCall.storable {word : List UInt8}
    {call : AnnotationCall} (denotes : DenotesAnnotationCall word call) :
    ∀ part ∈ call.parts, part.IsStorable := by
  cases denotes with
  | mk named denotes =>
      simp only [AnnotationCall.parts, List.forall_mem_cons]
      exact ⟨.name named.lt_size, denotes.storable⟩

theorem DenotesCalls.storable {word : List UInt8} {calls : AnnotationBlock}
    (denotes : DenotesCalls word calls) :
    ∀ part ∈ calls.flatMap AnnotationCall.parts, part.IsStorable := by
  induction denotes with
  | nil => simp
  | cons denotes others induction =>
      simp only [List.flatMap_cons, List.forall_mem_append]
      exact ⟨denotes.storable, induction⟩

theorem DenotesAnnotationBlock.storable {word : List UInt8}
    {block : AnnotationBlock} (denotes : DenotesAnnotationBlock word block) :
    ∀ part ∈ AnnotationBlock.parts block, part.IsStorable := by
  cases denotes with
  | counted size denotes =>
      simp only [AnnotationBlock.parts, List.forall_mem_cons]
      exact ⟨.count size.lt_size, denotes.storable⟩

theorem DenotesEntries.storable_blocks {word : List UInt8}
    {table : AnnotationTable} {calls : Nat}
    (denotes : DenotesEntries
      (fun word block _ => DenotesAnnotationBlock word block) word table
        calls) :
    ∀ part ∈ table.flatMap fun entry =>
      Part.name entry.1 :: AnnotationBlock.parts entry.2, part.IsStorable := by
  induction denotes with
  | nil => simp
  | cons named denotes others induction =>
      simp only [List.flatMap_cons, List.cons_append, List.forall_mem_cons,
        List.forall_mem_append]
      exact ⟨.name named.lt_size, denotes.storable, induction⟩

/-- Every object that some word denotes can be stored. -/
theorem Denotes.isStorable {word : List UInt8} {tree : Tree}
    (denotes : Denotes word tree) : tree.IsStorable := by
  rw [Tree.isStorable_iff]
  cases tree with
  | expression root => exact DenotesExpression.storable denotes
  | arguments entries => exact DenotesArguments.storable denotes
  | annotationCall call => exact DenotesAnnotationCall.storable denotes
  | annotationBlock calls => exact DenotesAnnotationBlock.storable denotes
  | annotationTable entries =>
      cases denotes with
      | counted size denotes distinct =>
          simp only [Tree.parts, AnnotationTable.parts, List.forall_mem_cons]
          exact ⟨.names distinct (by simpa using size.lt_size),
            denotes.storable_blocks⟩

end MaterialGraph
