import MaterialGraph.Proofs.Expression.Grammar
import MaterialGraph.Proofs.Named

/-!
# Readers of stored objects

Each reader accepts the words that the grammar has for its objects, and no
others.  A reader of an expression that may be nested in itself so many more
times accepts what may stand inside the direct calls that have been used up.
-/

namespace MaterialGraph

open ByteStream

theorem ExpressionKind.ofCode?_eq_some_iff {code : UInt8}
    {kind : ExpressionKind} :
    ExpressionKind.ofCode? code = some kind ↔ code = kind.code := by
  constructor
  · intro known
    unfold ExpressionKind.ofCode? at known
    split at known <;> cases known
    all_goals
      rename_i number
      exact UInt8.toNat_inj.mp number
  · intro same
    subst same
    cases kind <;> rfl

theorem accepts_decodeTag : Accepts Tag.decode DenotesTag := by
  have selects : ∀ number : UInt64,
      Accepts
        (if (Tag.mk number).isNull then throw .invalidTag
          else Pure.pure ⟨number⟩ : Read Tag)
        (fun word tag => word = [] ∧ tag ≠ Tag.null ∧ tag.number = number) := by
    intro number
    split
    · rename_i null
      refine (Accepts.throw _).congr fun word tag => ?_
      simp only [Tag.isNull, beq_iff_eq] at null
      constructor
      · exact False.elim
      · intro denoted
        rcases denoted with ⟨-, notNull, rfl⟩
        exact notNull null
    · rename_i notNull
      refine (Accepts.pure _).congr fun word tag => and_congr_right fun _ => ?_
      simp only [Tag.isNull, beq_iff_eq] at notNull
      constructor
      · intro same
        subst same
        exact ⟨notNull, rfl⟩
      · intro denoted
        rcases denoted with ⟨-, rfl⟩
        rfl
  refine (accepts_readVarint.bind_select selects).congr fun word tag => ?_
  constructor
  · intro accepted
    rcases accepted with ⟨_, number, notNull, rfl⟩
    exact .number number notNull
  · intro denoted
    rcases denoted with ⟨number, notNull⟩
    exact ⟨tag.number, number, notNull, rfl⟩

section Containers

variable {α : Type} {decodeChild : Read α} {child : NestedLanguage α}
  {calls : Nat}

theorem accepts_decodeEntries
    (accepts : Accepts decodeChild (fun word object => child word object calls))
    (count : Nat) {done : Named α} (consistent : done.Consistent) :
    Accepts (Named.decodeEntries decodeChild count done) (fun word found =>
      ∃ entries, DenotesEntries child word entries calls ∧
        entries.length = count ∧
        (done.toList.map Prod.fst ++ entries.map Prod.fst).Nodup ∧
        found = done.addAll entries) := by
  induction count generalizing done with
  | zero =>
      refine (Accepts.pure _).congr fun word found => ?_
      constructor
      · intro accepted
        rcases accepted with ⟨rfl, rfl⟩
        exact ⟨[], .nil, rfl, by simpa using consistent.nodup, rfl⟩
      · intro denoted
        rcases denoted with ⟨entries, denotes, none, -, rfl⟩
        cases denotes with
        | nil => exact ⟨rfl, rfl⟩
        | cons => cases none
  | succ count induction =>
      rw [Named.decodeEntries]
      refine Accepts.congr
        (accepts_readText.bind fun name => accepts.bind fun object =>
        (?_ : Accepts _ (fun word found =>
          ∃ entries, DenotesEntries child word entries calls ∧
            entries.length = count ∧
            (done.toList.map Prod.fst ++ name :: entries.map Prod.fst).Nodup ∧
            found = done.addAll ((name, object) :: entries))))
              fun word found => ?_
      -- a name that is taken ends the reading, and no word continues it
      · by_cases present : name ∈ done.toList.map Prod.fst
        · rw [consistent.add_of_mem object present]
          refine (Accepts.throw _).congr fun word found => ?_
          constructor
          · exact False.elim
          · intro denoted
            rcases denoted with ⟨entries, -, -, distinct, -⟩
            have different := (List.nodup_append.mp distinct).2.2
            exact different name present name (by simp) rfl
        · obtain ⟨extended, added, consistentExtended, toListExtended⟩ :=
            consistent.add_of_notMem object present
          rw [added]
          refine (induction consistentExtended).congr fun word found => ?_
          simp [toListExtended, Named.addAll_cons added]
      · constructor
        · intro accepted
          rcases accepted with
            ⟨nameWord, _, name, rfl, named, childWord, rest, object, rfl,
              denotes, entries, others, rfl, distinct, rfl⟩
          exact ⟨(name, object) :: entries, .cons named denotes others, rfl,
            distinct, rfl⟩
        · intro denoted
          rcases denoted with ⟨entries, denotes, many, distinct, rfl⟩
          cases denotes with
          | nil => cases many
          | cons named denotes others =>
              exact ⟨_, _, _, rfl, named, _, _, _, rfl, denotes, _, others,
                Nat.succ.inj many, distinct, rfl⟩

theorem accepts_decodeNamed
    (accepts :
      Accepts decodeChild (fun word object => child word object calls)) :
    Accepts (Named.decode decodeChild)
      (fun word entries => DenotesNamed child word entries calls) := by
  refine (accepts_readVarint.bind fun count =>
    (accepts_decodeEntries accepts count.toNat Named.consistent_empty).bind_pure
      Named.toList).congr fun word entries => ?_
  constructor
  · intro accepted
    rcases accepted with
      ⟨countWord, word, count, rfl, counted, _,
        ⟨entries, denotes, many, distinct, rfl⟩,
        rfl⟩
    rw [Named.consistent_empty.toList_addAll distinct]
    exact .counted (many ▸ counted) denotes distinct
  · intro denoted
    rcases denoted with ⟨counted, denotes, distinct⟩
    have whole := UInt64.toNat_ofNat_of_lt' counted.lt_size
    refine ⟨_, _, UInt64.ofNat entries.length, rfl, ?_, _, ⟨entries, denotes,
      whole.symm, distinct, rfl⟩, ?_⟩
    · simpa only [whole] using counted
    · exact (Named.consistent_empty.toList_addAll distinct).symm

end Containers

/-- What an expression carries besides its kind and its type. -/
def DenotesPayload (word : List UInt8) (calls : Nat) : Expression → Prop
  | .constant _ value => DenotesValue word value
  | .call _ tag => DenotesTag word tag
  | .parameter _ index => DenotesNumber word index.toNat
  | .directCall _ tag arguments =>
      ∃ tagWord list, word = tagWord ++ list ∧ DenotesTag tagWord tag ∧
        DenotesNamed DenotesExpression list arguments (calls + 1)
  | .temporary _ index => DenotesNumber word index.toNat

theorem denotesExpression_iff {word : List UInt8} {expression : Expression}
    {calls : Nat} :
    DenotesExpression word expression calls ↔
      calls ≤ maxNesting ∧ ∃ typeWord payload,
        word = expression.kind.code :: (typeWord ++ payload) ∧
          DenotesType typeWord expression.type ∧
          DenotesPayload payload calls expression := by
  constructor
  · intro denotes
    cases denotes with
    | constant nested typed valued => exact ⟨nested, _, _, rfl, typed, valued⟩
    | call nested typed tagged => exact ⟨nested, _, _, rfl, typed, tagged⟩
    | parameter nested typed indexed =>
        exact ⟨nested, _, _, rfl, typed, indexed⟩
    | directCall nested typed tagged denotes =>
        exact ⟨nested, _, _, rfl, typed, _, _, rfl, tagged, denotes⟩
    | temporary nested typed indexed =>
        exact ⟨nested, _, _, rfl, typed, indexed⟩
  · intro denoted
    rcases denoted with ⟨nested, typeWord, payload, rfl, typed, carried⟩
    cases expression with
    | constant type value => exact .constant nested typed carried
    | call type tag => exact .call nested typed carried
    | parameter type index => exact .parameter nested typed carried
    | directCall type tag arguments =>
        obtain ⟨tagWord, list, rfl, tagged, denotes⟩ := carried
        exact .directCall nested typed tagged denotes
    | temporary type index => exact .temporary nested typed carried

/-- The expressions of one kind and type that a payload stands for. -/
def payloadLanguage (calls : Nat) (kind : ExpressionKind) (type : ValueType) :
    WordLanguage Expression := fun word found =>
  found.kind = kind ∧ found.type = type ∧ DenotesPayload word calls found

section Payloads

variable (calls : Nat) (type : ValueType)

theorem accepts_constant :
    Accepts (Expression.constant type <$> Value.decode)
      (payloadLanguage calls .constant type) := by
  refine (accepts_decodeValue.map _).congr fun word found => ?_
  constructor
  · intro accepted
    rcases accepted with ⟨value, valued, rfl⟩
    exact ⟨rfl, rfl, valued⟩
  · intro denoted
    rcases denoted with ⟨sameKind, rfl, carried⟩
    cases found with
    | constant type value => exact ⟨value, carried, rfl⟩
    | call | parameter | directCall | temporary => cases sameKind

theorem accepts_call :
    Accepts (Expression.call type <$> Tag.decode)
      (payloadLanguage calls .call type) := by
  refine (accepts_decodeTag.map _).congr fun word found => ?_
  constructor
  · intro accepted
    rcases accepted with ⟨tag, tagged, rfl⟩
    exact ⟨rfl, rfl, tagged⟩
  · intro denoted
    rcases denoted with ⟨sameKind, rfl, carried⟩
    cases found with
    | call type tag => exact ⟨tag, carried, rfl⟩
    | constant | parameter | directCall | temporary => cases sameKind

theorem accepts_parameter :
    Accepts (Expression.parameter type <$> readVarint)
      (payloadLanguage calls .parameter type) := by
  refine (accepts_readVarint.map _).congr fun word found => ?_
  constructor
  · intro accepted
    rcases accepted with ⟨index, indexed, rfl⟩
    exact ⟨rfl, rfl, indexed⟩
  · intro denoted
    rcases denoted with ⟨sameKind, rfl, carried⟩
    cases found with
    | parameter type index => exact ⟨index, carried, rfl⟩
    | constant | call | directCall | temporary => cases sameKind

theorem accepts_temporary :
    Accepts (Expression.temporary type <$> readVarint)
      (payloadLanguage calls .temporary type) := by
  refine (accepts_readVarint.map _).congr fun word found => ?_
  constructor
  · intro accepted
    rcases accepted with ⟨index, indexed, rfl⟩
    exact ⟨rfl, rfl, indexed⟩
  · intro denoted
    rcases denoted with ⟨sameKind, rfl, carried⟩
    cases found with
    | temporary type index => exact ⟨index, carried, rfl⟩
    | constant | call | parameter | directCall => cases sameKind

theorem accepts_directCall {decodeChild : Read Expression}
    (accepts : Accepts decodeChild
      (fun word object => DenotesExpression word object (calls + 1))) :
    Accepts (do
        let tag ← Tag.decode
        let arguments ← Named.decode decodeChild
        return .directCall type tag arguments)
      (payloadLanguage calls .directCall type) := by
  refine (accepts_decodeTag.bind fun tag =>
    (accepts_decodeNamed accepts).bind_pure _).congr fun word found => ?_
  constructor
  · intro accepted
    rcases accepted with
      ⟨tagWord, list, tag, rfl, tagged, arguments, denotes, rfl⟩
    exact ⟨rfl, rfl, tagWord, list, rfl, tagged, denotes⟩
  · intro denoted
    rcases denoted with ⟨sameKind, rfl, carried⟩
    cases found with
    | directCall type tag arguments =>
        obtain ⟨tagWord, list, rfl, tagged, denotes⟩ := carried
        exact ⟨tagWord, list, tag, rfl, tagged, arguments, denotes, rfl⟩
    | constant | call | parameter | temporary => cases sameKind

end Payloads

theorem accepts_decodeWithin {levels calls : Nat}
    (limit : levels + calls = maxNesting + 1) :
    Accepts (Expression.decodeWithin levels)
      (fun word expression => DenotesExpression word expression calls) := by
  induction levels generalizing calls with
  | zero =>
      -- no level is left exactly where the grammar has no expressions
      refine (Accepts.throw _).congr fun word expression => ?_
      constructor
      · exact False.elim
      · intro denotes
        have nested := (denotesExpression_iff.mp denotes).1
        omega
  | succ levels induction =>
      have nested : calls ≤ maxNesting := by omega
      have inner : Accepts (Expression.decodeWithin levels)
          (fun word expression =>
            DenotesExpression word expression (calls + 1)) :=
        induction (by omega)
      rw [Expression.decodeWithin]
      refine Accepts.congr (accepts_readByte.bind fun byte => (?_ : Accepts _
        (fun word found => ∃ kind, ExpressionKind.ofCode? byte = some kind ∧
          WordLanguage.andThen DenotesType (payloadLanguage calls kind) word
            found)))
        fun word found => ?_
      · split
        · rename_i unknown
          refine (Accepts.throw _).congr fun word found => ?_
          simp [WordLanguage.empty, unknown]
        · rename_i kind known
          refine Accepts.congr (accepts_decodeType.bind fun type =>
            (?_ : Accepts _ (payloadLanguage calls kind type)))
              fun word found => ?_
          · cases kind with
            | constant => exact accepts_constant calls type
            | call => exact accepts_call calls type
            | parameter => exact accepts_parameter calls type
            | directCall => exact accepts_directCall calls type inner
            | temporary => exact accepts_temporary calls type
          · simp [known]
      · simp only [denotesExpression_iff, ExpressionKind.ofCode?_eq_some_iff]
        constructor
        · intro accepted
          rcases accepted with
            ⟨_, _, byte, rfl, rfl, kind, rfl, typeWord, payload, _, rfl, typed,
              rfl, rfl, carried⟩
          exact ⟨nested, typeWord, payload, rfl, typed, carried⟩
        · intro denoted
          rcases denoted with ⟨-, typeWord, payload, rfl, typed, carried⟩
          exact ⟨[found.kind.code], typeWord ++ payload, _, rfl, rfl, _, rfl,
            typeWord, payload, _, rfl, typed, rfl, rfl, carried⟩

theorem accepts_decodeExpression :
    Accepts Expression.decode
      (fun word expression => DenotesExpression word expression 0) :=
  accepts_decodeWithin rfl

theorem accepts_decodeArguments : Accepts Arguments.decode DenotesArguments :=
  accepts_decodeNamed accepts_decodeExpression

theorem accepts_decodeAnnotationCall :
    Accepts AnnotationCall.decode DenotesAnnotationCall := by
  refine (accepts_readText.bind fun name =>
    accepts_decodeArguments.bind_pure _).congr fun word call => ?_
  constructor
  · intro accepted
    rcases accepted with
      ⟨nameWord, list, name, rfl, named, arguments, denotes, rfl⟩
    exact .mk named denotes
  · intro denoted
    rcases denoted with ⟨named, denotes⟩
    exact ⟨_, _, _, rfl, named, _, denotes, rfl⟩

theorem accepts_readCalls (count : Nat) (done : Array AnnotationCall) :
    Accepts (readMany AnnotationCall.decode count done) (fun word found =>
      ∃ calls, DenotesCalls word calls ∧ calls.length = count ∧
        found.toList = done.toList ++ calls) := by
  induction count generalizing done with
  | zero =>
      refine (Accepts.pure _).congr fun word found => ?_
      constructor
      · intro accepted
        rcases accepted with ⟨rfl, rfl⟩
        exact ⟨[], .nil, rfl, by simp⟩
      · intro denoted
        rcases denoted with ⟨calls, denotes, none, same⟩
        cases denotes with
        | nil => exact ⟨rfl, Array.toList_inj.mp (by simpa using same)⟩
        | cons => cases none
  | succ count induction =>
      refine (accepts_decodeAnnotationCall.bind fun call =>
        induction (done.push call)).congr fun word found => ?_
      constructor
      · intro accepted
        rcases accepted with
          ⟨callWord, rest, call, rfl, denotes, calls, others, rfl, same⟩
        exact ⟨call :: calls, .cons denotes others, rfl, by simpa using same⟩
      · intro denoted
        rcases denoted with ⟨calls, denotes, many, same⟩
        cases denotes with
        | nil => cases many
        | cons denotes others =>
            exact ⟨_, _, _, rfl, denotes, _, others, Nat.succ.inj many,
              by simpa using same⟩

theorem accepts_decodeAnnotationBlock :
    Accepts AnnotationBlock.decode DenotesAnnotationBlock := by
  refine (accepts_readVarint.bind fun count =>
    (accepts_readCalls count.toNat #[]).bind_pure Array.toList).congr
      fun word block => ?_
  constructor
  · intro accepted
    rcases accepted with
      ⟨countWord, word, count, rfl, counted, _,
        ⟨calls, denotes, many, same⟩, rfl⟩
    rw [same]
    exact .counted (many ▸ counted) denotes
  · intro denoted
    rcases denoted with ⟨counted, denotes⟩
    have whole := UInt64.toNat_ofNat_of_lt' counted.lt_size
    refine ⟨_, _, UInt64.ofNat block.length, rfl, ?_, block.toArray,
      ⟨block, denotes, whole.symm, by simp⟩, by simp⟩
    simpa only [whole] using counted

theorem accepts_decodeAnnotationTable :
    Accepts AnnotationTable.decode DenotesAnnotationTable :=
  accepts_decodeNamed accepts_decodeAnnotationBlock

/-- Each of the five readers accepts the words for the objects of its form. -/
theorem accepts_decode (form : Form) :
    Accepts form.decode
      (fun word tree => tree.form = form ∧ Denotes word tree) := by
  cases form with
  | expression =>
      refine (accepts_decodeExpression.map _).congr fun word tree => ?_
      cases tree <;> simp [Tree.form, Denotes]
  | arguments =>
      refine (accepts_decodeArguments.map _).congr fun word tree => ?_
      cases tree <;> simp [Tree.form, Denotes]
  | annotationCall =>
      refine (accepts_decodeAnnotationCall.map _).congr fun word tree => ?_
      cases tree <;> simp [Tree.form, Denotes]
  | annotationBlock =>
      refine (accepts_decodeAnnotationBlock.map _).congr fun word tree => ?_
      cases tree <;> simp [Tree.form, Denotes]
  | annotationTable =>
      refine (accepts_decodeAnnotationTable.map _).congr fun word tree => ?_
      cases tree <;> simp [Tree.form, Denotes]

end MaterialGraph
