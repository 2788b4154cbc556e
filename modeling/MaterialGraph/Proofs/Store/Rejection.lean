import MaterialGraph.Proofs.Store.Independence
import MaterialGraph.Proofs.Store.Steps

/-!
# Refused operations leave no trace

What a refused operation has made cannot be reached from anything that was there
before, and is dropped.  The objects that were there are as they were, so that
the store is the one from before.  A run from which the refused operations are
taken out therefore gives the same answers to the others.
-/

namespace MaterialGraph

namespace Store

/-- Drop the objects that have been made since an earlier store, which are the
last ones of each sort.  The others are left with whatever they hold by now. -/
def release (before left : Store) : Store where
  nodes := left.nodes.take before.nodes.size
  lists := left.lists.take before.lists.size
  notes := left.notes.take before.notes.size
  blocks := left.blocks.take before.blocks.size
  tables := left.tables.take before.tables.size

/-- An answer, and the store that the operation leaves. -/
abbrev Answer := Except Refusal Handle × Store

/-- Carry out the steps of an operation.  What a refused operation has made is
dropped, because nothing holds it. -/
def perform (store : Store) (operation : Operation) : Answer :=
  match operation.steps store with
  | .ok handle changed => (.ok handle, changed)
  | .error reason left => (.error reason, store.release left)

/-- The answers to a sequence of operations, with the store after each. -/
def answers : Store → List Operation → List Answer
  | _, [] => []
  | store, operation :: rest =>
      store.perform operation ::
        answers (store.perform operation).2 rest

/-- The operations of a sequence that are not refused. -/
def accepted : Store → List Operation → List Operation
  | _, [] => []
  | store, operation :: rest =>
      if (store.perform operation).1.isOk then
        operation :: accepted (store.perform operation).2 rest
      else
        accepted (store.perform operation).2 rest

theorem take_eq_of_forall {α : Type} {old new : Array α}
    (kept : ∀ (index : Nat) (object : α), old[index]? = some object →
      new[index]? = some object) : new.take old.size = old := by
  apply Array.ext_getElem?
  intro index
  rw [Array.take_eq_extract, Array.getElem?_extract]
  cases there : old[index]? with
  | some object =>
      have inOld := (Array.getElem?_eq_some_iff.mp there).1
      have inNew := (Array.getElem?_eq_some_iff.mp (kept index object there)).1
      rw [Nat.zero_add, kept index object there, if_pos]
      omega
  | none =>
      have outside := Array.getElem?_eq_none_iff.mp there
      rw [if_neg]
      omega

/-- What has been added can be dropped again. -/
theorem GrowsTo.release_eq {before left : Store} (grows : before.GrowsTo left) :
    before.release left = before := by
  have nodes : left.nodes.take before.nodes.size = before.nodes :=
    take_eq_of_forall fun index _ there => @grows.nodes ⟨index⟩ _ there
  have lists : left.lists.take before.lists.size = before.lists :=
    take_eq_of_forall fun index _ there => @grows.lists ⟨index⟩ _ there
  have notes : left.notes.take before.notes.size = before.notes :=
    take_eq_of_forall fun index _ there => @grows.notes ⟨index⟩ _ there
  have blocks : left.blocks.take before.blocks.size = before.blocks :=
    take_eq_of_forall fun index _ there => @grows.blocks ⟨index⟩ _ there
  have tables : left.tables.take before.tables.size = before.tables :=
    take_eq_of_forall fun index _ there => @grows.tables ⟨index⟩ _ there
  rw [release, nodes, lists, notes, blocks, tables]

section Outcome

variable {store : Store} {operation : Operation}

theorem steps_of_ok {handle : Handle} {changed : Store}
    (outcome : store.apply operation = .ok (handle, changed)) :
    operation.steps store = .ok handle changed := by
  have leads := store.leadTo_apply operation
  rw [outcome] at leads
  cases leads with
  | done result => exact result

theorem steps_of_error {reason : Refusal}
    (outcome : store.apply operation = .error reason) :
    ∃ left, operation.steps store = .error reason left ∧
      store.AddsTo left := by
  have leads := store.leadTo_apply operation
  rw [outcome] at leads
  cases leads with
  | refused result adds => exact ⟨_, result, adds⟩

/-- The steps of an operation succeed with what the operation leads to. -/
theorem steps_eq_ok_iff {handle : Handle} {changed : Store} :
    operation.steps store = .ok handle changed ↔
      store.apply operation = .ok (handle, changed) := by
  constructor
  · intro result
    cases outcome : store.apply operation with
    | ok made =>
        cases result.symm.trans (steps_of_ok outcome)
        rfl
    | error reason =>
        obtain ⟨left, refused, -⟩ := steps_of_error outcome
        cases result.symm.trans refused
  · exact steps_of_ok

/-- If they are refused, then for the same reason, and objects may have been
added. -/
theorem refused_of_steps {reason : Refusal} {left : Store}
    (result : operation.steps store = .error reason left) :
    store.apply operation = .error reason ∧ store.AddsTo left := by
  cases outcome : store.apply operation with
  | ok made => cases result.symm.trans (steps_of_ok outcome)
  | error reason' =>
      obtain ⟨left', refused, adds⟩ := steps_of_error outcome
      cases result.symm.trans refused
      exact ⟨rfl, adds⟩

end Outcome

section Perform

variable (store : Store) (operation : Operation)

/-- An operation that is carried out in steps is carried out as a whole, and one
that is refused leaves the store as it was. -/
theorem perform_eq :
    store.perform operation =
      match store.apply operation with
      | .ok (handle, changed) => (.ok handle, changed)
      | .error reason => (.error reason, store) := by
  cases outcome : store.apply operation with
  | ok made => simp only [perform, steps_of_ok outcome]
  | error reason =>
      obtain ⟨left, refused, adds⟩ := steps_of_error outcome
      simp only [perform, refused, adds.grows.release_eq]

theorem perform_eq_of_not_isOk
    (refused : (store.perform operation).1.isOk = false) :
    (store.perform operation).2 = store := by
  rw [perform_eq] at refused ⊢
  cases outcome : store.apply operation with
  | ok made =>
      rw [outcome] at refused
      cases refused
  | error reason => rfl

theorem perform_snd : (store.perform operation).2 = store.run [operation] := by
  rw [perform_eq]
  cases outcome : store.apply operation with
  | ok made => exact (run_singleton_of_ok outcome).symm
  | error reason => exact (run_singleton_of_error outcome).symm

/-- A run comes to the same store when its operations are carried out in
steps. -/
theorem run_eq_foldl_perform (operations : List Operation) :
    store.run operations =
      operations.foldl (fun store operation => (store.perform operation).2)
        store := by
  induction operations generalizing store with
  | nil => rfl
  | cons operation rest induction =>
      rw [run_cons, List.foldl_cons, perform_snd, induction]

end Perform

/-- What a refused operation leaves has every object as it was, and what is new
in it is below none of these. -/
structure NoTrace (before left : Store) : Prop where
  contents : ∀ handle, before.Has handle →
    left.object? handle = before.object? handle
  unreachable : ∀ handle part, before.Has handle → left.Reaches handle part →
    before.Has part
  released : before.release left = before

theorem AddsTo.noTrace {before left : Store} (adds : before.AddsTo left)
    (closed : before.Closed) : before.NoTrace left where
  contents _ has := adds.grows.object?_eq_of_has has
  unreachable _ _ has reaches := adds.grows.has_of_reaches closed has reaches
  released := adds.grows.release_eq

/-- Without the operations that are refused, the others are answered as they are
with them. -/
theorem answers_accepted (operations : List Operation) (store : Store) :
    answers store (accepted store operations) =
      (answers store operations).filter (·.1.isOk) := by
  induction operations generalizing store with
  | nil => rfl
  | cons operation rest induction =>
      rw [accepted, answers]
      cases done : (store.perform operation).1.isOk with
      | true =>
          rw [List.filter_cons, done, if_pos rfl, if_pos rfl, answers,
            induction]
      | false =>
          rw [List.filter_cons, done, if_neg Bool.false_ne_true,
            if_neg Bool.false_ne_true, ← induction,
            store.perform_eq_of_not_isOk operation done]

/-- A refused operation leaves every object as it was and nothing new within
reach, so that a run without the refused operations gives the same answers and
the same stores. -/
theorem refused_operations_leave_no_trace (earlier : List Operation) :
    run {} earlier = earlier.foldl
      (fun store operation => (store.perform operation).2) {} ∧
    (∀ operation reason left,
      operation.steps (run {} earlier) = .error reason left →
        (run {} earlier).apply operation = .error reason ∧
          (run {} earlier).NoTrace left) ∧
    (∀ operation handle changed,
      operation.steps (run {} earlier) = .ok handle changed ↔
        (run {} earlier).apply operation = .ok (handle, changed)) ∧
    ∀ later, answers (run {} earlier) (accepted (run {} earlier) later) =
      (answers (run {} earlier) later).filter (·.1.isOk) := by
  refine ⟨run_eq_foldl_perform {} earlier, ?_, fun _ _ _ => steps_eq_ok_iff,
    fun later => answers_accepted later _⟩
  intro operation reason left result
  obtain ⟨refused, adds⟩ := refused_of_steps result
  exact ⟨refused, adds.noTrace (closed_run earlier)⟩

/-- A block of two annotations of which only the first is there: it is made, with
its list, before the block is refused. -/
example :
    (match (Operation.decode .annotationBlock [2, 1, 97, 0]).steps {} with
      | .ok _ _ => none
      | .error reason left =>
          some (reason, left.notes.size, left.lists.size, left.blocks.size)) =
      some (.decode .unexpectedEnd, 1, 1, 0) := by
  rfl

end Store

end MaterialGraph
