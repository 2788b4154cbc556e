import MaterialGraph.Expression.Wire

/-!
# Rounds are paid for by bytes

A traced reader keeps what a reader notes: the rounds of its loops, the counts
that the stream announces, and the expressions that it begins.  Otherwise it
does what the reader does.  A byte that is consumed pays for two rounds: one of
the loop over the groups of a number, and one of the loop over the objects of a
container, as each of them begins with a count or a text.  Only what goes on
when a reader is refused is not paid for, and that is at most two rounds.
Composing readers keeps the accounts.
-/

namespace MaterialGraph

open ByteStream

namespace Event

/-- A round of one of the loops. -/
def isIteration : Event → Bool
  | group => true
  | round => true
  | _ => false

/-- How many rounds of loops there were. -/
def iterations (log : List Event) : Nat :=
  log.countP isIteration

@[simp] theorem iterations_nil : iterations [] = 0 :=
  rfl

@[simp] theorem iterations_append (log log' : List Event) :
    iterations (log ++ log') = iterations log + iterations log' :=
  List.countP_append

/-- What holds of all that is noted by a reader that accepts. -/
def IsKept : Event → Prop
  | declared count remaining => count ≤ remaining
  | begun calls _ => calls ≤ maxNesting
  | _ => True

/-- An expression inside too many direct calls is begun only if the reader is
refused for it, and then no byte of it is consumed. -/
def IsAllowed (reason : DecodeError) (left : Reader) : Event → Prop
  | begun calls position =>
      calls ≤ maxNesting ∨
        calls = maxNesting + 1 ∧ reason = .nestingTooDeep maxNesting ∧
          left.position = position
  | _ => True

theorem IsKept.isAllowed {event : Event} (kept : event.IsKept)
    (reason : DecodeError) (left : Reader) : event.IsAllowed reason left := by
  cases event with
  | begun calls position => exact .inl kept
  | group | round | declared => trivial

end Event

/-- Reading with notes, of which the last comes first.  They are kept when the
reader is refused. -/
abbrev Trace := EStateM DecodeError (Reader × List Event)

namespace Trace

variable {α : Type}

def read (reading : Read α) : Trace α := fun (reader, log) =>
  match reading reader with
  | .ok found left => .ok found (left, log)
  | .error reason left => .error reason (left, log)

def note (event : Reader → Event) : Trace Unit := fun (reader, log) =>
  .ok () (reader, event reader :: log)

instance : MonadRead Trace where
  nextByte := read readByte
  nextBlock count := read (readBlock count)
  note := note

end Trace

/-- An object of a given form, with notes. -/
def Form.trace (form : Form) : Trace Tree :=
  form.scan

/-- A traced reader does what the reader does.  Two rounds are paid for by each
byte that is consumed, and `credit` rounds are left over; a reader that is
refused may be in debt for two rounds instead. -/
structure Follows {α : Type} (credit : Nat) (trace : Trace α)
    (reading : Read α) : Prop where
  accepted : ∀ {reader left : Reader} {found : α},
    reading reader = .ok found left →
    ∀ log, ∃ noted, trace (reader, log) = .ok found (left, noted ++ log) ∧
      Event.iterations noted + credit + 2 * left.remaining ≤
        2 * reader.remaining ∧
      ∀ event ∈ noted, event.IsKept
  refused : ∀ {reader left : Reader} {reason : DecodeError},
    reading reader = .error reason left →
    ∀ log, ∃ noted, trace (reader, log) = .error reason (left, noted ++ log) ∧
      Event.iterations noted + credit + 2 * left.remaining ≤
        2 * reader.remaining + 2 ∧
      ∀ event ∈ noted, event.IsAllowed reason left

namespace Follows

variable {α β : Type} {credit : Nat} {trace : Trace α} {reading : Read α}

theorem relax {more : Nat} (follows : Follows more trace reading)
    (less : credit ≤ more) : Follows credit trace reading where
  accepted := by
    intro reader left found result log
    obtain ⟨noted, traced, paid, kept⟩ := follows.accepted result log
    exact ⟨noted, traced, by omega, kept⟩
  refused := by
    intro reader left reason result log
    obtain ⟨noted, traced, paid, allowed⟩ := follows.refused result log
    exact ⟨noted, traced, by omega, allowed⟩

theorem pure (found : α) : Follows 0 (pure found) (pure found : Read α) where
  accepted := by
    rintro reader left found ⟨⟩ log
    exact ⟨[], rfl, by simp, List.forall_mem_nil _⟩
  refused := nofun

theorem throw (reason : DecodeError) (small : credit ≤ 2) :
    Follows credit (throw reason : Trace α) (throw reason : Read α) where
  accepted := nofun
  refused := by
    rintro reader left _ ⟨⟩ log
    refine ⟨[], rfl, ?_, List.forall_mem_nil _⟩
    rw [Event.iterations_nil]
    omega

theorem bind {next : α → Trace β} {nextRead : α → Read β}
    (follows : Follows credit trace reading)
    (later : ∀ found, Follows 0 (next found) (nextRead found)) :
    Follows credit (trace >>= next) (reading >>= nextRead) where
  accepted := by
    intro reader left found result log
    cases first : reading reader with
    | error reason middle =>
        simp only [Bind.bind, EStateM.bind, first] at result
        cases result
    | ok value middle =>
        obtain ⟨noted, traced, paid, kept⟩ := follows.accepted first log
        simp only [Bind.bind, EStateM.bind, first] at result
        obtain ⟨noted', traced', paid', kept'⟩ :=
          (later value).accepted result (noted ++ log)
        refine ⟨noted' ++ noted, ?_, ?_, ?_⟩
        · simp only [Bind.bind, EStateM.bind, traced, traced',
            List.append_assoc]
        · rw [Event.iterations_append]
          omega
        · exact List.forall_mem_append.mpr ⟨kept', kept⟩
  refused := by
    intro reader left reason result log
    cases first : reading reader with
    | error reason' middle =>
        obtain ⟨noted, traced, paid, allowed⟩ := follows.refused first log
        simp only [Bind.bind, EStateM.bind, first] at result
        cases result
        refine ⟨noted, ?_, paid, allowed⟩
        simp only [Bind.bind, EStateM.bind, traced]
    | ok value middle =>
        obtain ⟨noted, traced, paid, kept⟩ := follows.accepted first log
        simp only [Bind.bind, EStateM.bind, first] at result
        obtain ⟨noted', traced', paid', allowed⟩ :=
          (later value).refused result (noted ++ log)
        refine ⟨noted' ++ noted, ?_, ?_, ?_⟩
        · simp only [Bind.bind, EStateM.bind, traced, traced',
            List.append_assoc]
        · rw [Event.iterations_append]
          omega
        · exact List.forall_mem_append.mpr
            ⟨allowed, fun event member => (kept event member).isAllowed _ _⟩

theorem map (follows : Follows credit trace reading) (change : α → β) :
    Follows credit (change <$> trace) (change <$> reading) :=
  follows.bind fun found => .pure (change found)

/-- Something is noted before, and some of the rounds that are left over pay
for it. -/
theorem note {event : Reader → Event} {cost : Nat}
    (follows : Follows (credit + cost) trace reading)
    (costs : ∀ reader, Event.iterations [event reader] = cost)
    (kept : ∀ {reader left : Reader} {found : α},
      reading reader = .ok found left → (event reader).IsKept)
    (allowed : ∀ {reader left : Reader} {reason : DecodeError},
      reading reader = .error reason left →
        (event reader).IsAllowed reason left) :
    Follows credit (MonadRead.note event >>= fun _ => trace)
      (MonadRead.note event >>= fun _ => reading) where
  accepted := by
    intro reader left found result log
    obtain ⟨noted, traced, paid, keptLater⟩ :=
      follows.accepted result (event reader :: log)
    refine ⟨noted ++ [event reader], ?_, ?_, ?_⟩
    · rw [List.append_assoc]
      exact traced
    · rw [Event.iterations_append, costs]
      omega
    · exact List.forall_mem_append.mpr
        ⟨keptLater, List.forall_mem_singleton.mpr (kept result)⟩
  refused := by
    intro reader left reason result log
    obtain ⟨noted, traced, paid, allowedLater⟩ :=
      follows.refused result (event reader :: log)
    refine ⟨noted ++ [event reader], ?_, ?_, ?_⟩
    · rw [List.append_assoc]
      exact traced
    · rw [Event.iterations_append, costs]
      omega
    · exact List.forall_mem_append.mpr
        ⟨allowedLater, List.forall_mem_singleton.mpr (allowed result)⟩

theorem noteIteration {event : Event} (iteration : event.isIteration = true)
    (follows : Follows (credit + 1) trace reading) :
    Follows credit (MonadRead.note (fun _ => event) >>= fun _ => trace)
      (MonadRead.note (fun _ => event) >>= fun _ => reading) := by
  have kept : event.IsKept := by
    cases event with
    | group | round => trivial
    | declared | begun => cases iteration
  refine follows.note (fun _ => ?_) (fun _ => kept) fun _ => kept.isAllowed _ _
  simp [Event.iterations, iteration]

/-- An expression is begun that is not inside too many direct calls. -/
theorem noteBegun {calls : Nat} (nested : calls ≤ maxNesting)
    (follows : Follows credit trace reading) :
    Follows credit
      (MonadRead.note (fun reader => .begun calls reader.position) >>=
        fun _ => trace)
      (MonadRead.note (fun reader => .begun calls reader.position) >>=
        fun _ => reading) := by
  have free : Follows (credit + 0) trace reading := follows
  exact free.note (fun _ => rfl) (fun _ => nested) fun _ => .inl nested

/-- What is announced is not more than what is left, if as much is consumed
whenever all that is announced is there. -/
theorem countBind {all : UInt64 → Trace α} {allRead : UInt64 → Read α}
    {finish : α → Trace β} {finishRead : α → Read β}
    (counts : Follows 1 scanVarint readVarint)
    (follows : ∀ count, Follows 0 (all count) (allRead count))
    (later : ∀ found, Follows 0 (finish found) (finishRead found))
    (consumes : ∀ {count : UInt64} {reader left : Reader} {found : α},
      allRead count reader = .ok found left →
        count.toNat + left.remaining ≤ reader.remaining) :
    Follows 1
      (scanVarint >>= fun count => announce count >>= fun _ =>
        all count >>= finish)
      (readVarint >>= fun count => announce count >>= fun _ =>
        allRead count >>= finishRead) := by
  apply counts.bind
  intro count
  have free : Follows (0 + 0) (all count >>= finish)
      (allRead count >>= finishRead) := (follows count).bind later
  apply free.note (fun _ => rfl)
  · intro reader left found result
    simp only [Bind.bind, EStateM.bind] at result
    split at result
    · rename_i complete
      exact Nat.le_of_add_right_le (consumes complete)
    · cases result
  · intro reader left reason result
    trivial

theorem remaining_lt (follows : Follows 1 trace reading) {reader left : Reader}
    {found : α} (result : reading reader = .ok found left) :
    left.remaining < reader.remaining := by
  obtain ⟨noted, -, paid, -⟩ := follows.accepted result []
  omega

end Follows

/-- An expression is begun and refused, as it is inside too many. -/
theorem follows_tooDeep :
    Follows 1 (Expression.scanWithin .trees 0) (Expression.decodeWithin 0) := by
  have refused : Follows (1 + 0) (throw (.nestingTooDeep maxNesting))
      (throw (.nestingTooDeep maxNesting) : Read Expression) :=
    .throw _ (by decide)
  apply refused.note (fun _ => rfl) nofun
  rintro reader left _ ⟨⟩
  exact .inr ⟨rfl, rfl, rfl⟩

section Primitives

/-- A reader without loops that stays where it is if it is refused. -/
theorem Follows.read {α : Type} {reading : Read α} {credit : Nat}
    (small : credit ≤ 2)
    (accepted : ∀ {reader left : Reader} {found : α},
      reading reader = .ok found left →
        credit + 2 * left.remaining ≤ 2 * reader.remaining)
    (refused : ∀ {reader left : Reader} {reason : DecodeError},
      reading reader = .error reason left → left = reader) :
    Follows credit (Trace.read reading) reading where
  accepted := by
    intro reader left found result log
    refine ⟨[], by simp [Trace.read, result], ?_, List.forall_mem_nil _⟩
    have paid := accepted result
    rw [Event.iterations_nil]
    omega
  refused := by
    intro reader left reason result log
    refine ⟨[], by simp [Trace.read, result], ?_, List.forall_mem_nil _⟩
    rw [refused result, Event.iterations_nil]
    omega

theorem follows_readByte : Follows 2 (Trace.read readByte) readByte := by
  apply Follows.read (Nat.le_refl 2)
  · intro reader left byte result
    unfold readByte at result
    split at result
    · rename_i present
      cases result
      have inside := (Array.getElem?_eq_some_iff.mp present).1
      simp only [Reader.remaining, Reader.advance]
      omega
    · cases result
  · intro reader left reason result
    unfold readByte at result
    split at result
    · cases result
    · cases result
      rfl

theorem remaining_of_readBlock {count : Nat} {reader left : Reader}
    {block : Array UInt8} (result : readBlock count reader = .ok block left) :
    count + left.remaining = reader.remaining := by
  unfold readBlock at result
  split at result
  · cases result
    simp only [Reader.remaining, Reader.advance] at *
    omega
  · cases result

theorem follows_readBlock (count : Nat) :
    Follows 0 (Trace.read (readBlock count)) (readBlock count) := by
  apply Follows.read (Nat.zero_le 2)
  · intro reader left block result
    have consumed := remaining_of_readBlock result
    omega
  · intro reader left reason result
    unfold readBlock at result
    split at result
    · cases result
    · cases result
      rfl

end Primitives

section Numbers

theorem follows_groups (groups : Nat) :
    Follows 1 (scanGroups groups) (readGroups groups) := by
  induction groups with
  | zero => exact .throw .overflow (by decide)
  | succ groups induction =>
      apply Follows.noteIteration rfl
      apply follows_readByte.bind
      intro byte
      dsimp only
      split
      · exact .throw .overflow (Nat.zero_le 2)
      · split
        · exact .pure _
        · exact (induction.bind fun higher => .pure _).relax (Nat.zero_le 1)

theorem follows_varint : Follows 1 scanVarint readVarint :=
  (follows_groups maxGroups).bind fun number => .pure (UInt64.ofNat number)

theorem follows_word : Follows 1 scanWord readWord := by
  apply follows_varint.bind
  intro number
  split
  · exact .pure _
  · exact .throw .overflow (Nat.zero_le 2)

theorem follows_flag : Follows 1 scanFlag readFlag := by
  apply (follows_readByte.relax (Nat.le_succ 1)).bind
  intro byte
  split
  · exact .pure false
  · split
    · exact .pure true
    · exact .throw (.badFlag byte) (Nat.zero_le 2)

end Numbers

section Loops

theorem follows_text : Follows 1 scanText readText := by
  apply follows_varint.countBind fun count => follows_readBlock count.toNat
  · intro block
    cases String.fromUTF8? ⟨block⟩ with
    | some text => exact .pure text
    | none => exact .throw .invalidText (Nat.zero_le 2)
  · intro count reader left block result
    exact Nat.le_of_eq (remaining_of_readBlock result)

variable {α : Type} {one : Trace α} {reading : Read α}

theorem follows_many (follows : Follows 1 one reading) (count : Nat)
    (done : Array α) :
    Follows 0 (scanMany one count done) (readMany reading count done) := by
  induction count generalizing done with
  | zero => exact .pure done
  | succ count induction =>
      apply Follows.noteIteration rfl
      exact follows.bind fun next => induction (done.push next)

theorem count_le_remaining_of_readMany (follows : Follows 1 one reading)
    {count : Nat} {done objects : Array α} {reader left : Reader}
    (result : readMany reading count done reader = .ok objects left) :
    count + left.remaining ≤ reader.remaining := by
  induction count generalizing done reader with
  | zero =>
      cases result
      exact Nat.le_of_eq (Nat.zero_add _)
  | succ count induction =>
      simp only [readMany_succ, Bind.bind, EStateM.bind] at result
      split at result
      · rename_i next middle first
        have shorter := follows.remaining_lt first
        have others := induction result
        omega
      · cases result

theorem follows_entries (follows : Follows 1 one reading) (count : Nat)
    (done : Named α) :
    Follows 0 (Named.scanEntries one count done)
      (Named.decodeEntries reading count done) := by
  induction count generalizing done with
  | zero => exact .pure done
  | succ count induction =>
      apply Follows.noteIteration rfl
      apply follows_text.bind
      intro name
      apply (follows.relax (Nat.zero_le 1)).bind
      intro child
      cases done.add name child with
      | ok extended => exact induction extended
      | error reason => exact .throw (.duplicateName name) (Nat.zero_le 2)

theorem count_le_remaining_of_decodeEntries (follows : Follows 1 one reading)
    {count : Nat} {done named : Named α} {reader left : Reader}
    (result : Named.decodeEntries reading count done reader = .ok named left) :
    count + left.remaining ≤ reader.remaining := by
  induction count generalizing done reader with
  | zero =>
      cases result
      exact Nat.le_of_eq (Nat.zero_add _)
  | succ count induction =>
      simp only [Named.decodeEntries_succ, Bind.bind, EStateM.bind] at result
      split at result
      · rename_i name middle first
        have shorter := follows_text.remaining_lt first
        split at result
        · rename_i child last second
          have shorter' := follows.remaining_lt second
          cases added : done.add name child with
          | ok extended =>
              simp only [added] at result
              have others := induction result
              omega
          | error reason =>
              simp only [added] at result
              cases result
        · cases result
      · cases result

/-- A container is traced with as many rounds as it announces entries. -/
theorem follows_named (follows : Follows 1 one reading) :
    Follows 1 (Named.scan one fun named => pure named.toList)
      (Named.decode reading) := by
  apply follows_varint.countBind
  · exact fun count => follows_entries follows count.toNat {}
  · exact fun named => .pure named.toList
  · exact count_le_remaining_of_decodeEntries follows

end Loops

section Values

theorem follows_type : Follows 1 ValueType.scan ValueType.decode := by
  apply (follows_readByte.relax (Nat.le_succ 1)).bind
  intro code
  cases BasicType.ofCode? code with
  | some type => exact .pure _
  | none => exact .throw (.unknownType code) (Nat.zero_le 2)

theorem follows_binary32 : Follows 1 Binary32.scan Binary32.decode :=
  follows_word.bind fun bits => .pure (Binary32.mk bits)

theorem follows_content (type : BasicType) :
    Follows 1 (BasicValue.scanContent type) (BasicValue.decodeContent type) := by
  cases type with
  | bool => exact follows_flag.map _
  | int => exact follows_word.map _
  | float => exact follows_binary32.map _
  | color =>
      have blue (red green : Binary32) :=
        follows_binary32.map (BasicValue.color red green)
      have green (red : Binary32) := follows_binary32.bind fun green =>
        (blue red green).relax (Nat.zero_le 1)
      exact follows_binary32.bind fun red =>
        (green red).relax (Nat.zero_le 1)
  | string => exact follows_text.map _
  | bsdf => exact .throw _ (by decide)
  | material => exact .throw _ (by decide)

theorem follows_value : Follows 1 Value.scan Value.decode := by
  apply (follows_readByte.relax (Nat.le_succ 1)).bind
  intro code
  cases BasicType.ofCode? code with
  | some type =>
      exact ((follows_content type).map _).relax (Nat.zero_le 1)
  | none => exact .throw (.noValues code) (Nat.zero_le 2)

theorem follows_tag : Follows 1 Tag.scan Tag.decode := by
  apply follows_varint.bind
  intro number
  split
  · exact .throw .invalidTag (Nat.zero_le 2)
  · exact .pure _

end Values

section Forms

theorem follows_expressionWithin (levels : Nat) :
    Follows 1 (Expression.scanWithin .trees levels)
      (Expression.decodeWithin levels) := by
  induction levels with
  | zero => exact follows_tooDeep
  | succ levels induction =>
      apply Follows.noteBegun (Nat.sub_le maxNesting levels)
      apply (follows_readByte.relax (Nat.le_succ 1)).bind
      intro byte
      cases ExpressionKind.ofCode? byte with
      | none => exact .throw (.invalidKind byte) (Nat.zero_le 2)
      | some kind =>
          apply Follows.relax _ (Nat.zero_le 1)
          apply follows_type.bind
          intro type
          apply Follows.relax _ (Nat.zero_le 1)
          cases kind with
          | constant => exact follows_value.map _
          | call => exact follows_tag.map _
          | parameter => exact follows_varint.map _
          | directCall =>
              apply follows_tag.bind
              intro tag
              have arguments := follows_named induction
              exact (arguments.map _).relax (Nat.zero_le 1)
          | temporary => exact follows_varint.map _

theorem follows_expression :
    Follows 1 (Expression.scan .trees) Expression.decode :=
  follows_expressionWithin (maxNesting + 1)

theorem follows_arguments :
    Follows 1 (Arguments.scan .trees) Arguments.decode :=
  follows_named follows_expression

theorem follows_annotationCall :
    Follows 1 (AnnotationCall.scan .trees) AnnotationCall.decode :=
  follows_text.bind fun name =>
    (follows_arguments.map (AnnotationCall.mk name)).relax (Nat.zero_le 1)

theorem follows_annotationBlock :
    Follows 1 (AnnotationBlock.scan .trees) AnnotationBlock.decode := by
  apply follows_varint.countBind
  · exact fun count => follows_many follows_annotationCall count.toNat #[]
  · exact fun calls => .pure calls.toList
  · exact count_le_remaining_of_readMany follows_annotationCall

theorem follows_annotationTable :
    Follows 1 (AnnotationTable.scan .trees) AnnotationTable.decode :=
  follows_named follows_annotationBlock

/-- Each of the five traced readers does what the reader does. -/
theorem follows_trace (form : Form) : Follows 1 form.trace form.decode := by
  cases form with
  | expression => exact follows_expression.map _
  | arguments => exact follows_arguments.map _
  | annotationCall => exact follows_annotationCall.map _
  | annotationBlock => exact follows_annotationBlock.map _
  | annotationTable => exact follows_annotationTable.map _

end Forms

end MaterialGraph
