import MaterialGraph.Proofs.ByteStream.Refusal
import MaterialGraph.Proofs.Expression.Encoding
import MaterialGraph.Proofs.Expression.Reading

/-!
# Objects that cannot be read back

Any object can be written, but a reader refuses what is written for an object
with a part that cannot be stored.  The reader follows the parts in the order
in which they were written, and the first one that cannot be stored says what
the refusal is.  It is assumed only that tags are not null and that names in
one container are distinct.
-/

namespace MaterialGraph

open ByteStream

namespace Part

/-- Why the part is refused, if it is.  The null tag and a name that occurs
twice are not looked at. -/
def refusal? : Part → Option DecodeError
  | expression calls =>
      if calls ≤ maxNesting then none else some (.nestingTooDeep maxNesting)
  | type (.foreign _) => some (.unknownType foreignCode)
  | value (.foreign _) => some (.noValues foreignCode)
  | value written => oversize? written.textSize
  | name written => oversize? written.utf8ByteSize
  | names inOrder => oversize? inOrder.length
  | count number => oversize? number
  | _ => none

/-- A part that a reader refuses, and the reason that is given.  An expression
inside even more direct calls is inside one that is refused before it. -/
inductive Unreadable : Part → DecodeError → Prop
  | type (text : String) :
      Unreadable (.type (.foreign text)) (.invalidValue "unknown type code 255")
  | value (text : String) :
      Unreadable (.value (.foreign text))
        (.invalidValue "no values of type code 255")
  | expression : Unreadable (.expression 257) (.nestingTooDeep 256)

theorem isStorable_of_refusal?_eq_none {part : Part}
    (tagged : part.IsTagged) (distinct : part.IsDistinct)
    (accepted : part.refusal? = none) : part.IsStorable := by
  cases part with
  | expression calls =>
      apply IsStorable.expression
      by_cases nested : calls ≤ maxNesting
      · exact nested
      · simp [refusal?, nested] at accepted
  | type written =>
      cases written with
      | basic type => exact .type trivial
      | foreign text => cases accepted
  | value written =>
      cases written with
      | basic value => exact .value trivial (oversize?_eq_none_iff.mp accepted)
      | foreign text => cases accepted
  | tag target => exact .tag tagged
  | name written => exact .name (oversize?_eq_none_iff.mp accepted)
  | names inOrder => exact .names distinct (oversize?_eq_none_iff.mp accepted)
  | count number => exact .count (oversize?_eq_none_iff.mp accepted)

theorem refusal?_eq_none {part : Part} (storable : part.IsStorable) :
    part.refusal? = none := by
  cases part with
  | expression calls => exact if_pos storable.nested
  | type written =>
      cases written with
      | basic type => rfl
      | foreign text => exact storable.basic.elim
  | value written =>
      cases written with
      | basic value => exact oversize?_eq_none_iff.mpr storable.sized
      | foreign text => exact storable.basic.elim
  | tag target => rfl
  | name written => exact oversize?_eq_none_iff.mpr storable.sized
  | names inOrder => exact oversize?_eq_none_iff.mpr storable.sized
  | count number => exact oversize?_eq_none_iff.mpr storable.sized

end Part

/-- Why the first part is refused that is not accepted. -/
def refusalIn? (parts : List Part) : Option DecodeError :=
  parts.findSome? Part.refusal?

@[simp] theorem refusalIn?_nil : refusalIn? [] = none :=
  rfl

@[simp] theorem refusalIn?_cons (part : Part) (parts : List Part) :
    refusalIn? (part :: parts) = part.refusal?.or (refusalIn? parts) := by
  simp only [refusalIn?, List.findSome?_cons]
  cases part.refusal? <;> rfl

@[simp] theorem refusalIn?_append (parts parts' : List Part) :
    refusalIn? (parts ++ parts') =
      (refusalIn? parts).or (refusalIn? parts') := by
  simp [refusalIn?, List.findSome?_append]

theorem answers_decodeType (type : ValueType) :
    Answers ValueType.decode type.encode type (Part.type type).refusal? := by
  cases type with
  | basic type =>
      exact .ofAccepts accepts_decodeType (denotesType_encode trivial)
  | foreign text =>
      have refused : Answers (throw (.unknownType foreignCode) : Read ValueType)
          [] (.foreign text) (some (.unknownType foreignCode)) :=
        .throw (.unknownType foreignCode)
      exact (answers_readByte foreignCode).acceptBind refused

theorem answers_decodeValue (value : Value) :
    Answers Value.decode value.encode value (Part.value value).refusal? := by
  cases value with
  | foreign text =>
      have refused : Answers (throw (.noValues foreignCode) : Read Value)
          [] (.foreign text) (some (.noValues foreignCode)) :=
        .throw (.noValues foreignCode)
      exact (answers_readByte foreignCode).acceptBind refused
  | basic value =>
      by_cases small : (Value.basic value).textSize < UInt64.size
      · simp only [Part.refusal?, oversize?_eq_none_iff.mpr small]
        exact .ofAccepts accepts_decodeValue (denotesValue_encode trivial small)
      · cases value with
        | string content =>
            have text := (answers_readText content).map BasicValue.string
            exact (answers_readByte BasicType.string.code).acceptBind
              (text.map Value.basic)
        | bool | int | float | color => exact (small (Nat.zero_lt_succ _)).elim

theorem answers_decodeTag {tag : Tag} (notNull : tag ≠ Tag.null) :
    Answers Tag.decode tag.encode tag none :=
  .ofAccepts accepts_decodeTag (denotesTag_encode notNull)

theorem answers_readIndex (index : UInt64) :
    Answers readVarint (encodeVarint index.toNat) index none :=
  .ofAccepts accepts_readVarint (denotesNumber_encodeIndex index)

section Containers

variable {α : Type} {decodeChild : Read α} {encodeChild : α → List UInt8}
  {partsOf : α → List Part}

theorem answers_decodeEntries {entries : List (String × α)}
    (children : ∀ entry ∈ entries, Answers decodeChild (encodeChild entry.2)
      entry.2 (refusalIn? (partsOf entry.2)))
    {done : Named α} (consistent : done.Consistent)
    (distinct : (done.toList.map Prod.fst ++ entries.map Prod.fst).Nodup) :
    Answers (Named.decodeEntries decodeChild entries.length done)
      (entries.flatMap fun entry => encodeText entry.1 ++ encodeChild entry.2)
      (done.addAll entries)
      (refusalIn? (entries.flatMap fun entry =>
        .name entry.1 :: partsOf entry.2)) := by
  induction entries generalizing done with
  | nil => exact .pure done
  | cons entry entries induction =>
      obtain ⟨name, child⟩ := entry
      have isNew : name ∉ done.toList.map Prod.fst := by
        intro present
        exact (List.nodup_append.mp distinct).2.2 name present name (by simp)
          rfl
      obtain ⟨extended, added, consistentExtended, toListExtended⟩ :=
        consistent.add_of_notMem child isNew
      have others : Answers
          (Named.decodeEntries decodeChild entries.length extended)
          (entries.flatMap fun entry =>
            encodeText entry.1 ++ encodeChild entry.2)
          (extended.addAll entries)
          (refusalIn? (entries.flatMap fun entry =>
            .name entry.1 :: partsOf entry.2)) := by
        apply induction _ consistentExtended
        · simpa [toListExtended] using distinct
        · intro entry member
          exact children entry (List.mem_cons_of_mem _ member)
      have first := children (name, child) List.mem_cons_self
      simp only [List.flatMap_cons, List.length_cons, List.append_assoc,
        List.cons_append, refusalIn?_cons, refusalIn?_append,
        Named.addAll_cons added]
      rw [Named.decodeEntries]
      refine (answers_readText name).bind fun _ => first.bind fun _ => ?_
      rw [added]
      exact others

theorem answers_decodeNamed {entries : List (String × α)}
    (children : ∀ entry ∈ entries, Answers decodeChild (encodeChild entry.2)
      entry.2 (refusalIn? (partsOf entry.2)))
    (distinct : (entries.map Prod.fst).Nodup) :
    Answers (Named.decode decodeChild)
      (encodeVarint entries.length ++
        entries.flatMap fun entry => encodeText entry.1 ++ encodeChild entry.2)
      entries
      (refusalIn? (.names (entries.map Prod.fst) ::
        entries.flatMap fun entry => .name entry.1 :: partsOf entry.2)) := by
  have whole := Named.consistent_empty.toList_addAll distinct
  have inside := answers_decodeEntries children Named.consistent_empty distinct
  have read := inside.map Named.toList
  rw [whole] at read
  have count : (Part.names (entries.map Prod.fst)).refusal? =
      oversize? entries.length := by
    simp [Part.refusal?]
  rw [refusalIn?_cons, count]
  refine (answers_readVarint entries.length).bind fun fits => ?_
  rw [UInt64.toNat_ofNat_of_lt' (oversize?_eq_none_iff.mp fits)]
  exact read

end Containers

namespace Expression

/-- What is read after the kind and the type. -/
def decodePayload (levels : Nat) (type : ValueType) :
    ExpressionKind → Read Expression
  | .constant => constant type <$> Value.decode
  | .call => call type <$> Tag.decode
  | .parameter => parameter type <$> readVarint
  | .directCall => do
      let tag ← Tag.decode
      directCall type tag <$> Named.decode (decodeWithin levels)
  | .temporary => temporary type <$> readVarint

theorem answers_decodeWithin_succ {levels : Nat} {kind : ExpressionKind}
    {type : ValueType} {payload : List UInt8} {found : Expression}
    {refusal? : Option DecodeError}
    (carried : Answers (decodePayload levels type kind) payload found
      refusal?) :
    Answers (decodeWithin (levels + 1))
      (kind.code :: (type.encode ++ payload)) found
      ((Part.type type).refusal?.or refusal?) := by
  have known : ExpressionKind.ofCode? kind.code = some kind :=
    ExpressionKind.ofCode?_eq_some_iff.mpr rfl
  rw [decodeWithin]
  refine (answers_readByte kind.code).acceptBind ?_
  simp only [known]
  refine (answers_decodeType type).bind fun _ => ?_
  cases kind <;> exact carried

theorem encodeEntries_eq_flatMap (arguments : Arguments) :
    encodeEntries arguments =
      arguments.flatMap fun entry => encodeText entry.1 ++ entry.2.encode := by
  induction arguments with
  | nil => rfl
  | cons entry rest induction =>
      rw [List.flatMap_cons, ← induction, List.append_assoc]
      rfl

theorem entryParts_eq_flatMap (calls : Nat) (arguments : Arguments) :
    entryParts calls arguments =
      arguments.flatMap fun entry => .name entry.1 :: entry.2.parts calls := by
  induction arguments with
  | nil => rfl
  | cons entry rest induction =>
      rw [List.flatMap_cons, ← induction, List.cons_append]
      rfl

mutual

theorem answers_decodeWithin (expression : Expression) {levels calls : Nat}
    (limit : levels + calls = maxNesting + 1)
    (tagged : ∀ part ∈ expression.parts calls, part.IsTagged)
    (distinct : ∀ part ∈ expression.parts calls, part.IsDistinct) :
    Answers (decodeWithin levels) expression.encode expression
      (refusalIn? (expression.parts calls)) := by
  cases levels with
  | zero =>
      have tooDeep : (Part.expression calls).refusal? =
          some (.nestingTooDeep maxNesting) :=
        if_neg (by omega)
      have refused : refusalIn? (expression.parts calls) =
          some (.nestingTooDeep maxNesting) := by
        cases expression <;>
          simp only [parts, refusalIn?_cons, tooDeep, Option.some_or]
      rw [refused]
      exact .throw (.nestingTooDeep maxNesting)
  | succ levels =>
      have nested : (Part.expression calls).refusal? = none :=
        if_pos (by omega)
      cases expression with
      | constant type value =>
          simp only [parts, refusalIn?_cons, nested, Option.none_or,
            refusalIn?_nil, Option.or_none]
          exact answers_decodeWithin_succ
            ((answers_decodeValue value).map (constant type))
      | call type tag =>
          simp only [parts, List.forall_mem_cons] at tagged
          have target := answers_decodeTag tagged.2.2.1
          simp only [parts, refusalIn?_cons, nested, Option.none_or,
            refusalIn?_nil, Option.or_none]
          exact answers_decodeWithin_succ (target.map (call type))
      | parameter type index =>
          simp only [parts, refusalIn?_cons, nested, Option.none_or,
            refusalIn?_nil]
          exact answers_decodeWithin_succ
            ((answers_readIndex index).map (parameter type))
      | directCall type tag arguments =>
          simp only [parts, List.forall_mem_cons] at tagged distinct
          have target := answers_decodeTag tagged.2.2.1
          have children : ∀ entry ∈ arguments, Answers (decodeWithin levels)
              entry.2.encode entry.2
              (refusalIn? (entry.2.parts (calls + 1))) :=
            answers_decodeWithin_children arguments (by omega)
              tagged.2.2.2.2 distinct.2.2.2.2
          have list := answers_decodeNamed children distinct.2.2.2.1
          rw [← encodeEntries_eq_flatMap, ← entryParts_eq_flatMap] at list
          simp only [encode, parts, refusalIn?_cons, nested, Option.none_or,
            List.append_assoc] at list ⊢
          exact answers_decodeWithin_succ
            (target.acceptBind (list.map (directCall type tag)))
      | temporary type index =>
          simp only [parts, refusalIn?_cons, nested, Option.none_or,
            refusalIn?_nil]
          exact answers_decodeWithin_succ
            ((answers_readIndex index).map (temporary type))

theorem answers_decodeWithin_children (arguments : Arguments)
    {levels calls : Nat} (limit : levels + calls = maxNesting + 1)
    (tagged : ∀ part ∈ entryParts calls arguments, part.IsTagged)
    (distinct : ∀ part ∈ entryParts calls arguments, part.IsDistinct) :
    ∀ entry ∈ arguments, Answers (decodeWithin levels) entry.2.encode entry.2
      (refusalIn? (entry.2.parts calls)) := by
  cases arguments with
  | nil => simp
  | cons entry rest =>
      obtain ⟨name, expression⟩ := entry
      simp only [entryParts, List.forall_mem_cons,
        List.forall_mem_append] at tagged distinct
      have first := answers_decodeWithin expression limit tagged.2.1
        distinct.2.1
      have others := answers_decodeWithin_children rest limit tagged.2.2
        distinct.2.2
      exact List.forall_mem_cons.mpr ⟨first, others⟩

end

end Expression

theorem answers_decodeArguments {arguments : Arguments}
    (tagged : ∀ part ∈ Arguments.parts arguments, part.IsTagged)
    (distinct : ∀ part ∈ Arguments.parts arguments, part.IsDistinct) :
    Answers Arguments.decode (Arguments.encode arguments) arguments
      (refusalIn? (Arguments.parts arguments)) := by
  simp only [Arguments.parts, List.forall_mem_cons] at tagged distinct
  have children : ∀ entry ∈ arguments, Answers Expression.decode
      entry.2.encode entry.2 (refusalIn? (entry.2.parts 0)) :=
    Expression.answers_decodeWithin_children arguments rfl tagged.2 distinct.2
  have list := answers_decodeNamed children distinct.1
  rw [← Expression.encodeEntries_eq_flatMap,
    ← Expression.entryParts_eq_flatMap] at list
  exact list

theorem answers_decodeAnnotationCall {call : AnnotationCall}
    (tagged : ∀ part ∈ call.parts, part.IsTagged)
    (distinct : ∀ part ∈ call.parts, part.IsDistinct) :
    Answers AnnotationCall.decode call.encode call
      (refusalIn? call.parts) := by
  simp only [AnnotationCall.parts, List.forall_mem_cons] at tagged distinct
  rw [AnnotationCall.parts, refusalIn?_cons]
  exact (answers_readText call.name).bind fun _ =>
    (answers_decodeArguments tagged.2 distinct.2).map
      (AnnotationCall.mk call.name)

theorem answers_readCalls (calls : AnnotationBlock)
    (tagged : ∀ part ∈ calls.flatMap AnnotationCall.parts, part.IsTagged)
    (distinct : ∀ part ∈ calls.flatMap AnnotationCall.parts, part.IsDistinct)
    (done : Array AnnotationCall) :
    Answers (readMany AnnotationCall.decode calls.length done)
      (calls.flatMap AnnotationCall.encode) (done ++ calls.toArray)
      (refusalIn? (calls.flatMap AnnotationCall.parts)) := by
  induction calls generalizing done with
  | nil =>
      rw [Array.append_empty]
      exact .pure done
  | cons call calls induction =>
      simp only [List.flatMap_cons, List.forall_mem_append] at tagged distinct
      have first := answers_decodeAnnotationCall tagged.1 distinct.1
      have others := induction tagged.2 distinct.2 (done.push call)
      have all : done.push call ++ calls.toArray =
          done ++ (call :: calls).toArray := by
        simp
      rw [all] at others
      rw [List.flatMap_cons, List.flatMap_cons, refusalIn?_append]
      exact first.bind fun _ => others

theorem answers_decodeAnnotationBlock {block : AnnotationBlock}
    (tagged : ∀ part ∈ AnnotationBlock.parts block, part.IsTagged)
    (distinct : ∀ part ∈ AnnotationBlock.parts block, part.IsDistinct) :
    Answers AnnotationBlock.decode (AnnotationBlock.encode block) block
      (refusalIn? (AnnotationBlock.parts block)) := by
  simp only [AnnotationBlock.parts, List.forall_mem_cons] at tagged distinct
  have calls := answers_readCalls block tagged.2 distinct.2 #[]
  have read := calls.map Array.toList
  rw [Array.empty_append, List.toList_toArray] at read
  rw [AnnotationBlock.parts, refusalIn?_cons]
  refine (answers_readVarint block.length).bind fun fits => ?_
  rw [UInt64.toNat_ofNat_of_lt' (oversize?_eq_none_iff.mp fits)]
  exact read

theorem answers_decodeAnnotationTable {table : AnnotationTable}
    (tagged : ∀ part ∈ AnnotationTable.parts table, part.IsTagged)
    (distinct : ∀ part ∈ AnnotationTable.parts table, part.IsDistinct) :
    Answers AnnotationTable.decode (AnnotationTable.encode table) table
      (refusalIn? (AnnotationTable.parts table)) := by
  simp only [AnnotationTable.parts, List.forall_mem_cons] at tagged distinct
  have inBlock : ∀ entry ∈ table, ∀ part ∈ AnnotationBlock.parts entry.2,
      part ∈ table.flatMap fun entry =>
        .name entry.1 :: AnnotationBlock.parts entry.2 := by
    intro entry member part inside
    exact List.mem_flatMap.mpr ⟨entry, member, List.mem_cons_of_mem _ inside⟩
  have children : ∀ entry ∈ table, Answers AnnotationBlock.decode
      (AnnotationBlock.encode entry.2) entry.2
      (refusalIn? (AnnotationBlock.parts entry.2)) := by
    intro entry member
    apply answers_decodeAnnotationBlock
    · intro part inside
      exact tagged.2 part (inBlock entry member part inside)
    · intro part inside
      exact distinct.2 part (inBlock entry member part inside)
  exact answers_decodeNamed children distinct.1

/-- What is written for an object is read back, or refused for the first of the
parts that cannot be stored. -/
theorem answers_decode {tree : Tree} (tagged : tree.IsTagged)
    (distinct : tree.IsDistinct) :
    Answers tree.form.decode tree.encode tree (refusalIn? tree.parts) := by
  cases tree with
  | expression root =>
      have limit : maxNesting + 1 + 0 = maxNesting + 1 := rfl
      exact (root.answers_decodeWithin limit tagged distinct).map
        Tree.expression
  | arguments entries =>
      exact (answers_decodeArguments tagged distinct).map Tree.arguments
  | annotationCall call =>
      exact (answers_decodeAnnotationCall tagged distinct).map
        Tree.annotationCall
  | annotationBlock calls =>
      exact (answers_decodeAnnotationBlock tagged distinct).map
        Tree.annotationBlock
  | annotationTable entries =>
      exact (answers_decodeAnnotationTable tagged distinct).map
        Tree.annotationTable

section Nesting

/-- The number of direct calls around an expression inside too many of them. -/
def Part.excess? : Part → Option Nat
  | expression calls => if calls ≤ maxNesting then none else some calls
  | _ => none

/-- The first part with too many direct calls around it has one too many. -/
def ExceedsByOne (parts : List Part) : Prop :=
  ∀ calls, parts.findSome? Part.excess? = some calls → calls = maxNesting + 1

theorem ExceedsByOne.nil : ExceedsByOne [] := by
  intro calls found
  cases found

theorem ExceedsByOne.append {parts parts' : List Part}
    (exceeds : ExceedsByOne parts) (exceeds' : ExceedsByOne parts') :
    ExceedsByOne (parts ++ parts') := by
  intro calls found
  rw [List.findSome?_append, Option.or_eq_some_iff] at found
  rcases found with inside | outside
  · exact exceeds calls inside
  · exact exceeds' calls outside.2

/-- Parts that are not expressions do not count. -/
theorem ExceedsByOne.cons {part : Part} {parts : List Part}
    (none : part.excess? = none) (exceeds : ExceedsByOne parts) :
    ExceedsByOne (part :: parts) := by
  intro calls found
  rw [List.findSome?_cons, none] at found
  exact exceeds calls found

/-- What is inside an expression counts only if the expression does not. -/
theorem ExceedsByOne.ofExpression {calls : Nat} {parts : List Part}
    (almost : calls ≤ maxNesting + 1)
    (exceeds : calls ≤ maxNesting → ExceedsByOne parts) :
    ExceedsByOne (.expression calls :: parts) := by
  by_cases nested : calls ≤ maxNesting
  · exact .cons (if_pos nested) (exceeds nested)
  · intro found first
    have excess : (Part.expression calls).excess? = some calls := if_neg nested
    rw [List.findSome?_cons, excess] at first
    cases first
    omega

theorem exceedsByOne_flatMap {α : Type} {objects : List α}
    {partsOf : α → List Part}
    (exceeds : ∀ object ∈ objects, ExceedsByOne (partsOf object)) :
    ExceedsByOne (objects.flatMap partsOf) := by
  induction objects with
  | nil => exact .nil
  | cons object objects induction =>
      rw [List.forall_mem_cons] at exceeds
      rw [List.flatMap_cons]
      exact exceeds.1.append (induction exceeds.2)

mutual

theorem exceedsByOne_parts (expression : Expression) {calls : Nat}
    (almost : calls ≤ maxNesting + 1) :
    ExceedsByOne (expression.parts calls) := by
  cases expression with
  | directCall type tag arguments =>
      refine .ofExpression almost fun nested => ?_
      have inside := exceedsByOne_entryParts arguments
        (Nat.succ_le_succ nested)
      exact .cons rfl (.cons rfl (.cons rfl inside))
  | constant type value =>
      exact .ofExpression almost fun _ => .cons rfl (.cons rfl .nil)
  | call type tag =>
      exact .ofExpression almost fun _ => .cons rfl (.cons rfl .nil)
  | parameter type index =>
      exact .ofExpression almost fun _ => .cons rfl .nil
  | temporary type index =>
      exact .ofExpression almost fun _ => .cons rfl .nil

theorem exceedsByOne_entryParts (arguments : Arguments) {calls : Nat}
    (almost : calls ≤ maxNesting + 1) :
    ExceedsByOne (Expression.entryParts calls arguments) := by
  cases arguments with
  | nil => exact .nil
  | cons entry rest =>
      obtain ⟨name, expression⟩ := entry
      have first := exceedsByOne_parts expression almost
      have others := exceedsByOne_entryParts rest almost
      exact .cons rfl (first.append others)

end

theorem exceedsByOne_argumentsParts (arguments : Arguments) :
    ExceedsByOne (Arguments.parts arguments) :=
  .cons rfl (exceedsByOne_entryParts arguments (Nat.zero_le _))

theorem exceedsByOne_blockParts (block : AnnotationBlock) :
    ExceedsByOne (AnnotationBlock.parts block) := by
  apply ExceedsByOne.cons rfl
  apply exceedsByOne_flatMap
  intro call member
  exact .cons rfl (exceedsByOne_argumentsParts call.arguments)

theorem Tree.exceedsByOne_parts (tree : Tree) : ExceedsByOne tree.parts := by
  cases tree with
  | expression root =>
      exact MaterialGraph.exceedsByOne_parts root (Nat.zero_le _)
  | arguments entries => exact exceedsByOne_argumentsParts entries
  | annotationCall call =>
      exact .cons rfl (exceedsByOne_argumentsParts call.arguments)
  | annotationBlock calls => exact exceedsByOne_blockParts calls
  | annotationTable entries =>
      apply ExceedsByOne.cons rfl
      apply exceedsByOne_flatMap
      intro entry member
      exact .cons rfl (exceedsByOne_blockParts entry.2)

end Nesting

/-- The refusal of an object is that of its first part that cannot be stored,
and the parts before it can. -/
theorem exists_part_of_refusalIn?_eq_some {tree : Tree} {reason : DecodeError}
    (tagged : tree.IsTagged) (distinct : tree.IsDistinct)
    (refused : refusalIn? tree.parts = some reason) :
    ∃ before part after, tree.parts = before ++ part :: after ∧
      (∀ earlier ∈ before, earlier.IsStorable) ∧
      (part.Unreadable reason ∨ ¬part.IsSized ∧ reason = .overflow) := by
  obtain ⟨before, part, after, split, first, accepted⟩ :=
    List.findSome?_eq_some_iff.mp refused
  have storable : ∀ earlier ∈ before, earlier.IsStorable := by
    intro earlier member
    have inTree : earlier ∈ tree.parts := by
      rw [split]
      exact List.mem_append_left _ member
    exact Part.isStorable_of_refusal?_eq_none (tagged earlier inTree)
      (distinct earlier inTree) (accepted earlier member)
  have oversize : ∀ {size : Nat}, oversize? size = some reason →
      ¬size < UInt64.size ∧ reason = .overflow := by
    intro size found
    unfold oversize? at found
    split at found
    · cases found
    · rename_i large
      cases found
      exact ⟨large, rfl⟩
  refine ⟨before, part, after, split, storable, ?_⟩
  cases part with
  | expression calls =>
      left
      simp only [Part.refusal?] at first
      split at first
      · cases first
      · rename_i deep
        cases first
        have excess : tree.parts.findSome? Part.excess? = some calls := by
          apply List.findSome?_eq_some_iff.mpr
          refine ⟨before, _, after, split, if_neg deep, ?_⟩
          intro earlier member
          have nested := (storable earlier member).nested
          cases earlier with
          | expression calls => exact if_pos nested
          | type | value | tag | name | names | count => rfl
        rw [tree.exceedsByOne_parts calls excess]
        exact .expression
  | type written =>
      left
      cases written with
      | basic type => cases first
      | foreign text =>
          cases first
          exact .type text
  | value written =>
      cases written with
      | basic value => exact .inr (oversize first)
      | foreign text =>
          left
          cases first
          exact .value text
  | tag target => cases first
  | name written => exact .inr (oversize first)
  | names inOrder => exact .inr (oversize first)
  | count number => exact .inr (oversize first)

end MaterialGraph
