import MaterialGraph.Proofs.Expression.Refusal
import MaterialGraph.Proofs.Expression.Spelling
import MaterialGraph.Proofs.Expression.Tracing

/-!
# The effort of reading

However much a stream announces, the rounds of all loops together are at most
two for each byte and one more, and nothing is read of an expression that is
nested too deeply.  An object that is read takes at least three bytes for each
of its expressions and one for everything else that is counted or named.
-/

namespace MaterialGraph

open ByteStream

/-- How many objects of each sort there are in one, and how many of them are
named entries of a container. -/
structure Census where
  expressions : Nat := 0
  lists : Nat := 0
  annotations : Nat := 0
  blocks : Nat := 0
  tables : Nat := 0
  entries : Nat := 0
  deriving DecidableEq, Repr

namespace Census

instance : Zero Census :=
  ⟨{}⟩

instance : Add Census where
  add census census' := {
    expressions := census.expressions + census'.expressions
    lists := census.lists + census'.lists
    annotations := census.annotations + census'.annotations
    blocks := census.blocks + census'.blocks
    tables := census.tables + census'.tables
    entries := census.entries + census'.entries }

/-- The number of bytes that cannot be done without. -/
def bytes (census : Census) : Nat :=
  3 * census.expressions + census.lists + census.annotations + census.blocks +
    census.tables + census.entries

theorem bytes_add (census census' : Census) :
    (census + census').bytes = census.bytes + census'.bytes := by
  change 3 * (census.expressions + census'.expressions) +
    (census.lists + census'.lists) +
    (census.annotations + census'.annotations) +
    (census.blocks + census'.blocks) + (census.tables + census'.tables) +
    (census.entries + census'.entries) = _
  simp only [bytes]
  omega

theorem bytes_sum_le {α : Type} {census : α → Census}
    {encode : α → List UInt8} {objects : List α}
    (each : ∀ object ∈ objects, (census object).bytes ≤ (encode object).length) :
    (objects.map census).sum.bytes ≤ (objects.flatMap encode).length := by
  induction objects with
  | nil => exact Nat.le_refl 0
  | cons object objects induction =>
      rw [List.forall_mem_cons] at each
      rw [List.map_cons, List.sum_cons, List.flatMap_cons, List.length_append,
        bytes_add]
      exact Nat.add_le_add each.1 (induction each.2)

end Census

namespace Expression

mutual

def census : Expression → Census
  | directCall _ _ arguments =>
      { expressions := 1, lists := 1 } + entryCensus arguments
  | _ => { expressions := 1 }

/-- The census of the entries of a list of arguments. -/
def entryCensus : Arguments → Census
  | [] => {}
  | (_, expression) :: rest =>
      { entries := 1 } + expression.census + entryCensus rest

end

end Expression

def Arguments.census (arguments : Arguments) : Census :=
  { lists := 1 } + Expression.entryCensus arguments

def AnnotationCall.census (call : AnnotationCall) : Census :=
  { annotations := 1 } + Arguments.census call.arguments

def AnnotationBlock.census (block : AnnotationBlock) : Census :=
  { blocks := 1 } + (block.map AnnotationCall.census).sum

def AnnotationTable.census (table : AnnotationTable) : Census :=
  { tables := 1 } +
    (table.map fun entry =>
      { entries := 1 } + AnnotationBlock.census entry.2).sum

def Tree.census : Tree → Census
  | expression root => root.census
  | arguments entries => Arguments.census entries
  | annotationCall call => call.census
  | annotationBlock calls => AnnotationBlock.census calls
  | annotationTable entries => AnnotationTable.census entries

section Writing

theorem length_encodeVarint_pos (number : Nat) :
    0 < (encodeVarint number).length := by
  rw [encodeVarint]
  split <;> simp

theorem length_encodeText_pos (text : String) :
    0 < (encodeText text).length := by
  rw [encodeText, List.length_append]
  exact Nat.add_pos_left (length_encodeVarint_pos _) _

theorem length_encodeType (type : ValueType) : type.encode.length = 1 := by
  cases type <;> rfl

theorem length_encodeValue_pos (value : Value) : 0 < value.encode.length := by
  cases value with
  | basic value => exact Nat.zero_lt_succ _
  | foreign text => exact Nat.zero_lt_one

mutual

theorem Expression.bytes_census_le (expression : Expression) :
    expression.census.bytes ≤ expression.encode.length := by
  cases expression with
  | constant type value =>
      have positive := length_encodeValue_pos value
      simp only [Expression.census, Census.bytes, Expression.encode,
        List.length_cons, List.length_append, length_encodeType]
      omega
  | call type tag =>
      have positive := length_encodeVarint_pos tag.number.toNat
      simp only [Expression.census, Census.bytes, Expression.encode,
        List.length_cons, List.length_append, length_encodeType, Tag.encode]
      omega
  | parameter type index =>
      have positive := length_encodeVarint_pos index.toNat
      simp only [Expression.census, Census.bytes, Expression.encode,
        List.length_cons, List.length_append, length_encodeType]
      omega
  | directCall type tag arguments =>
      have tagPositive := length_encodeVarint_pos tag.number.toNat
      have countPositive := length_encodeVarint_pos arguments.length
      have entries := Expression.bytes_entryCensus_le arguments
      simp only [Expression.census, Census.bytes_add, Expression.encode,
        List.length_cons, List.length_append, length_encodeType, Tag.encode]
      simp only [Census.bytes] at entries ⊢
      omega
  | temporary type index =>
      have positive := length_encodeVarint_pos index.toNat
      simp only [Expression.census, Census.bytes, Expression.encode,
        List.length_cons, List.length_append, length_encodeType]
      omega

theorem Expression.bytes_entryCensus_le (arguments : Arguments) :
    (Expression.entryCensus arguments).bytes ≤
      (Expression.encodeEntries arguments).length := by
  cases arguments with
  | nil => exact Nat.le_refl 0
  | cons entry rest =>
      obtain ⟨name, expression⟩ := entry
      have positive := length_encodeText_pos name
      have first := Expression.bytes_census_le expression
      have others := Expression.bytes_entryCensus_le rest
      simp only [Expression.entryCensus, Census.bytes_add,
        Expression.encodeEntries, List.length_append]
      simp only [Census.bytes] at first others ⊢
      omega

end

theorem Arguments.bytes_census_le (arguments : Arguments) :
    (Arguments.census arguments).bytes ≤ (Arguments.encode arguments).length := by
  have positive := length_encodeVarint_pos arguments.length
  have entries := Expression.bytes_entryCensus_le arguments
  rw [Arguments.census, Census.bytes_add, Arguments.encode, List.length_append]
  exact Nat.add_le_add positive entries

theorem AnnotationCall.bytes_census_le (call : AnnotationCall) :
    call.census.bytes ≤ call.encode.length := by
  have positive := length_encodeText_pos call.name
  have arguments := Arguments.bytes_census_le call.arguments
  rw [AnnotationCall.census, Census.bytes_add, AnnotationCall.encode,
    List.length_append]
  exact Nat.add_le_add positive arguments

theorem AnnotationBlock.bytes_census_le (block : AnnotationBlock) :
    (AnnotationBlock.census block).bytes ≤
      (AnnotationBlock.encode block).length := by
  have positive := length_encodeVarint_pos block.length
  rw [AnnotationBlock.census, Census.bytes_add, AnnotationBlock.encode,
    List.length_append]
  exact Nat.add_le_add positive
    (Census.bytes_sum_le fun call _ => call.bytes_census_le)

theorem AnnotationTable.bytes_census_le (table : AnnotationTable) :
    (AnnotationTable.census table).bytes ≤
      (AnnotationTable.encode table).length := by
  have positive := length_encodeVarint_pos table.length
  rw [AnnotationTable.census, Census.bytes_add, AnnotationTable.encode,
    List.length_append]
  refine Nat.add_le_add positive (Census.bytes_sum_le fun entry _ => ?_)
  rw [Census.bytes_add, List.length_append]
  exact Nat.add_le_add (length_encodeText_pos entry.1)
    (AnnotationBlock.bytes_census_le entry.2)

theorem Tree.bytes_census_le (tree : Tree) :
    tree.census.bytes ≤ tree.encode.length := by
  cases tree with
  | expression root => exact root.bytes_census_le
  | arguments entries => exact Arguments.bytes_census_le entries
  | annotationCall call => exact call.bytes_census_le
  | annotationBlock calls => exact AnnotationBlock.bytes_census_le calls
  | annotationTable entries => exact AnnotationTable.bytes_census_le entries

end Writing

/-- An object that is read takes at least as many bytes as its parts need. -/
theorem bytes_census_le_position {form : Form} {bytes : List UInt8}
    {tree : Tree} {left : Reader}
    (read : form.decode (.ofList bytes) = .ok tree left) :
    tree.census.bytes ≤ left.position := by
  obtain ⟨inside, -, denotes⟩ :=
    ((accepts_decode form).ofList bytes tree left.position).mp ⟨left, read, rfl⟩
  obtain ⟨numbers, spells⟩ := denotes.isSpelling
  have shorter := spells.length_encode_le
  rw [← tree.encode_eq_pieces, List.length_take_of_le inside] at shorter
  exact Nat.le_trans tree.bytes_census_le shorter

/-- What a traced reader ends with if the reader ends in this way. -/
def Trace.noted {α : Type} (log : List Event) :
    EStateM.Result DecodeError Reader α →
      EStateM.Result DecodeError (Reader × List Event) α
  | .ok found left => .ok found (left, log)
  | .error reason left => .error reason (left, log)

theorem remaining_ofList (bytes : List UInt8) :
    (Reader.ofList bytes).remaining = bytes.length := by
  simp [Reader.ofList, Reader.remaining]

/-- Reading takes few rounds, whatever is announced.  Expressions inside more
direct calls than is allowed are refused before a byte of them is consumed, and
so is, sooner or later, every stream that announces more than it has.  What is
read takes bytes for all its parts. -/
theorem decode_effort_bounded (form : Form) (bytes : List UInt8) :
    ∃ log,
      form.trace (.ofList bytes, []) =
        Trace.noted log (form.decode (.ofList bytes)) ∧
      Event.iterations log ≤ 2 * bytes.length + 1 ∧
      (∀ calls position, .begun calls position ∈ log →
        calls ≤ maxNesting ∨
          calls = maxNesting + 1 ∧
            ∃ left, form.decode (.ofList bytes) =
                .error (.nestingTooDeep maxNesting) left ∧
              left.position = position) ∧
      (∀ tree left, form.decode (.ofList bytes) = .ok tree left →
        3 * tree.census.expressions + tree.census.lists +
            tree.census.annotations + tree.census.blocks +
            tree.census.tables + tree.census.entries ≤ left.position) ∧
      ∀ count remaining, .declared count remaining ∈ log →
        remaining < count →
          ∃ reason left, form.decode (.ofList bytes) = .error reason left := by
  have follows := follows_trace form
  cases result : form.decode (.ofList bytes) with
  | ok tree left =>
      obtain ⟨noted, traced, paid, kept⟩ := follows.accepted result []
      rw [List.append_nil] at traced
      rw [remaining_ofList] at paid
      refine ⟨noted, traced, by omega, ?_, ?_, ?_⟩
      · intro calls position begun
        exact .inl (kept _ begun)
      · rintro _ _ ⟨⟩
        exact bytes_census_le_position result
      · intro count remaining declared more
        exact (Nat.not_lt_of_le (kept _ declared) more).elim
  | error reason left =>
      obtain ⟨noted, traced, paid, allowed⟩ := follows.refused result []
      rw [List.append_nil] at traced
      rw [remaining_ofList] at paid
      refine ⟨noted, traced, by omega, ?_, nofun, ?_⟩
      · intro calls position begun
        rcases allowed _ begun with nested | ⟨tooDeep, rfl, stayed⟩
        · exact .inl nested
        · exact .inr ⟨tooDeep, left, rfl, stayed⟩
      · intro count remaining _ _
        exact ⟨reason, left, rfl⟩

/-- A list that announces `2 ^ 64 - 1` entries and ends. -/
def hugeCount : List UInt8 :=
  [255, 255, 255, 255, 255, 255, 255, 255, 255, 1]

theorem decode_effort_bounded_hugeCount :
    ∃ log,
      Form.arguments.trace (.ofList hugeCount, []) =
        Trace.noted log (Form.arguments.decode (.ofList hugeCount)) ∧
      .declared (UInt64.size - 1) 0 ∈ log ∧ Event.iterations log ≤ 21 ∧
      ∃ reason left,
        Form.arguments.decode (.ofList hugeCount) = .error reason left := by
  obtain ⟨log, traced, few, -, -, refused⟩ :=
    decode_effort_bounded .arguments hugeCount
  have result : Form.arguments.trace (.ofList hugeCount, []) =
      .error .unexpectedEnd (⟨hugeCount.toArray, 10⟩,
        .group :: .round :: .declared (UInt64.size - 1) 0 ::
          List.replicate 10 .group) := rfl
  have announced : .declared (UInt64.size - 1) 0 ∈ log := by
    have ended := traced
    rw [result] at ended
    cases decoded : Form.arguments.decode (.ofList hugeCount) with
    | ok tree left =>
        rw [decoded] at ended
        cases ended
    | error reason left =>
        rw [decoded] at ended
        injection ended with _ sameEnd
        rw [← (Prod.mk.inj sameEnd).2]
        simp
  exact ⟨log, traced, announced, few, refused _ _ announced (by decide)⟩

end MaterialGraph
