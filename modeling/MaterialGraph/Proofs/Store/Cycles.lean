import MaterialGraph.Proofs.Store.Assembly
import MaterialGraph.Proofs.Store.Change
import MaterialGraph.Proofs.Store.Order
import MaterialGraph.Proofs.Store.Outline
import Mathlib.Data.Fintype.Card
import Mathlib.Data.Set.Finite.List

/-!
# Objects that hold themselves

A list can come to hold a direct call whose arguments it is, and nothing keeps
it from that.  A run makes no cycle exactly as long as no operation that it
carries out puts an object into one that can be reached from it.  All objects
without a cycle below them have trees, so that they can be written, shown,
measured, cloned and compared; an object with a cycle below it can not.
-/

namespace MaterialGraph

/-- The form of the trees of objects of one sort. -/
def Handle.form : Handle → Form
  | node _ => .expression
  | list _ => .arguments
  | note _ => .annotationCall
  | block _ => .annotationBlock
  | table _ => .annotationTable

namespace Store

variable {store : Store} {handle : Handle} {tree : Tree}

theorem form_of_unfolding?_eq_some
    (unfolds : store.unfolding? handle = some tree) :
    tree.form = handle.form := by
  cases handle <;>
    obtain ⟨_, -, rfl⟩ := Option.map_eq_some_iff.mp unfolds <;> rfl

section Trees

theorem has_of_unfolding?_eq_some (consistent : store.Consistent)
    (unfolds : store.unfolding? handle = some tree) : store.Has handle := by
  obtain ⟨object, there, -⟩ :=
    (unfolding?_eq_some_iff_assembles consistent).mp unfolds
  exact has_of_object?_eq_some there

theorem exists_unfolding?_of_transGen (consistent : store.Consistent)
    (unfolds : store.unfolding? handle = some tree) {part : Handle}
    (below : Relation.TransGen store.Owns handle part) :
    ∃ tree', store.unfolding? part = some tree' ∧
      sizeOf tree' < sizeOf tree := by
  induction below with
  | single owns => exact exists_unfolding?_of_owns consistent unfolds owns
  | tail _ owns induction =>
      obtain ⟨middle, unfoldsMiddle, smaller⟩ := induction
      obtain ⟨tree', unfoldsPart, smaller'⟩ :=
        exists_unfolding?_of_owns consistent unfoldsMiddle owns
      exact ⟨tree', unfoldsPart, smaller'.trans smaller⟩

/-- There is no cycle below an object that has a tree. -/
theorem acyclicFrom_of_unfolding?_eq_some (consistent : store.Consistent)
    (unfolds : store.unfolding? handle = some tree) :
    store.AcyclicFrom handle := by
  intro part reaches cycle
  have unfoldsPart : ∃ tree', store.unfolding? part = some tree' := by
    rcases Relation.reflTransGen_iff_eq_or_transGen.mp reaches with rfl | below
    · exact ⟨tree, unfolds⟩
    · obtain ⟨tree', unfoldsPart, -⟩ :=
        exists_unfolding?_of_transGen consistent unfolds below
      exact ⟨tree', unfoldsPart⟩
  obtain ⟨tree', unfoldsPart⟩ := unfoldsPart
  obtain ⟨tree'', again, smaller⟩ :=
    exists_unfolding?_of_transGen consistent unfoldsPart cycle
  cases unfoldsPart.symm.trans again
  exact Nat.lt_irrefl _ smaller

/-- The handles of all objects. -/
def handles (store : Store) : List Handle :=
  (List.range store.nodes.size).map (fun index => .node ⟨index⟩) ++
    ((List.range store.lists.size).map (fun index => .list ⟨index⟩) ++
    ((List.range store.notes.size).map (fun index => .note ⟨index⟩) ++
    ((List.range store.blocks.size).map (fun index => .block ⟨index⟩) ++
    (List.range store.tables.size).map fun index => .table ⟨index⟩)))

theorem mem_handles_of_has (has : store.Has handle) : handle ∈ store.handles := by
  rcases handle with ⟨⟨index⟩⟩ | ⟨⟨index⟩⟩ | ⟨⟨index⟩⟩ | ⟨⟨index⟩⟩ | ⟨⟨index⟩⟩ <;>
    simpa [Has, object?, node?, list?, note?, block?, table?, handles] using has

instance finite_has (store : Store) : Finite {handle // store.Has handle} :=
  ((List.finite_toSet store.handles).subset
    fun _ has => mem_handles_of_has has).to_subtype

/-- One part of an object is properly below another. -/
def Below (store : Store) (root : Handle)
    (part owner : {handle // store.Has handle}) : Prop :=
  store.Reaches root owner ∧ Relation.TransGen store.Owns owner part

theorem wellFounded_below (acyclic : store.AcyclicFrom handle) :
    WellFounded (store.Below handle) := by
  have : IsTrans _ (store.Below handle) :=
    ⟨fun _ _ _ below above => ⟨above.1, above.2.trans below.2⟩⟩
  have : Std.Irrefl (store.Below handle) :=
    ⟨fun part below => acyclic part below.1 below.2⟩
  exact Finite.wellFounded_of_trans_of_irrefl _

/-- An object without a cycle below it has a tree. -/
theorem AcyclicFrom.isSome_unfolding? (acyclic : store.AcyclicFrom handle)
    (closed : store.Closed) (has : store.Has handle) :
    (store.unfolding? handle).isSome := by
  have parts : ∀ part : {handle // store.Has handle},
      store.Reaches handle part → (store.unfolding? part).isSome := by
    intro part
    -- upward from the lowest parts: finitely many, and none below itself
    induction part using (wellFounded_below acyclic).induction with
    | _ owner induction =>
        intro reaches
        refine isSome_unfolding?_of_parts owner.2 fun inner owns => ?_
        exact induction ⟨inner, closed owns⟩ ⟨reaches, .single owns⟩
          (reaches.tail owns)
  exact parts ⟨handle, has⟩ .refl

theorem exists_unfolding?_iff (consistent : store.Consistent)
    (closed : store.Closed) :
    (∃ tree, store.unfolding? handle = some tree) ↔
      store.Has handle ∧ store.AcyclicFrom handle := by
  constructor
  · rintro ⟨tree, unfolds⟩
    exact ⟨has_of_unfolding?_eq_some consistent unfolds,
      acyclicFrom_of_unfolding?_eq_some consistent unfolds⟩
  · rintro ⟨has, acyclic⟩
    exact Option.isSome_iff_exists.mp (acyclic.isSome_unfolding? closed has)

end Trees

/-- Every question about an object that takes all its parts has an answer. -/
structure Answers (store : Store) (handle : Handle) : Prop where
  encodes : ∃ bytes, store.encode handle = .ok bytes
  dumps : ∀ style name, ∃ text, store.dump style name handle = .ok text
  measures : ∃ memory, store.footprint handle = .ok memory
  clones : handle.form.IsOrdered →
    ∃ copy changed, store.apply (.clone handle) = .ok (copy, changed)
  compares : handle.form.IsOrdered → ∀ other, other.form = handle.form →
    store.Has other → store.AcyclicFrom other →
      ∃ order, store.compare handle other = .ok order ∧
        store.compare other handle = .ok order.swap

theorem apply_clone_eq_ok_iff {copy : Handle} {changed : Store}
    (ordered : handle.form.IsOrdered) :
    store.apply (.clone handle) = .ok (copy, changed) ↔
      store.clone? handle = some (copy, changed) := by
  cases handle with
  | node | list => exact require_eq_ok_iff
  | note | block | table => exact ordered.elim

theorem answers_of_unfolding?_eq_some (consistent : store.Consistent)
    (closed : store.Closed) (unfolds : store.unfolding? handle = some tree) :
    store.Answers handle where
  encodes := ⟨_, encode_eq_ok consistent unfolds⟩
  dumps style name := ⟨_, dump_eq_ok unfolds style name⟩
  measures := ⟨_, footprint_eq_ok consistent unfolds⟩
  clones ordered := by
    rw [← form_of_unfolding?_eq_some unfolds] at ordered
    obtain ⟨copy, changed, cloned⟩ :=
      exists_clone? consistent unfolds ordered
    rw [form_of_unfolding?_eq_some unfolds] at ordered
    exact ⟨copy, changed, (apply_clone_eq_ok_iff ordered).mpr cloned⟩
  compares ordered other sameForm has acyclic := by
    obtain ⟨tree', unfolds'⟩ :=
      (exists_unfolding?_iff consistent closed).mpr ⟨has, acyclic⟩
    rw [← form_of_unfolding?_eq_some unfolds] at ordered sameForm
    rw [← form_of_unfolding?_eq_some unfolds'] at sameForm
    obtain ⟨order, compared⟩ := Tree.exists_compare? ordered sameForm.symm
    exact ⟨order, compare_eq_ok consistent unfolds unfolds' compared,
      compare_eq_ok consistent unfolds' unfolds (Tree.compare?_swap compared)⟩

/-- The questions that would take all parts of an object have no answer. -/
structure Refuses (store : Store) (handle : Handle) : Prop where
  encodes : store.encode handle = .error .noTree
  dumps : ∀ style name, style.depth = 0 →
    store.dump style name handle = .error .noTree
  measures : store.footprint handle = .error .noTree
  clones : handle.form.IsOrdered →
    store.apply (.clone handle) = .error .noTree

/-- A store that grows keeps its cycles. -/
theorem GrowsTo.acyclicFrom {new : Store} (grows : store.GrowsTo new)
    (acyclic : new.AcyclicFrom handle) : store.AcyclicFrom handle := by
  have owns_of_owns : ∀ owner part, store.Owns owner part →
      new.Owns owner part := by
    intro owner part owns
    rwa [Owns, grows.children_of_has (has_of_owns owns)]
  intro part reaches cycle
  exact acyclic part (Relation.ReflTransGen.mono owns_of_owns _ _ reaches)
    (Relation.TransGen.mono owns_of_owns _ _ cycle)

theorem clone?_eq_none (consistent : store.Consistent)
    (cyclic : ¬store.AcyclicFrom handle) : store.clone? handle = none := by
  rw [Option.eq_none_iff_forall_ne_some]
  rintro ⟨copy, changed⟩ cloned
  have isClone := IsClone.ofClone? cloned
  -- the original has a tree once it is cloned, and still has its cycle
  obtain ⟨tree, unfolds, -⟩ := isClone.sameTree
  have acyclic := acyclicFrom_of_unfolding?_eq_some
    (isClone.adds.consistent consistent) unfolds
  exact cyclic (isClone.adds.grows.acyclicFrom acyclic)

theorem refuses_of_not_acyclicFrom (consistent : store.Consistent)
    (cyclic : ¬store.AcyclicFrom handle) : store.Refuses handle := by
  have noTree : store.unfolding? handle = none := by
    rw [Option.eq_none_iff_forall_ne_some]
    intro tree unfolds
    exact cyclic (acyclicFrom_of_unfolding?_eq_some consistent unfolds)
  constructor
  · rw [Store.encode, encode?_eq consistent, noTree]
    rfl
  · intro style name unlimited
    have unseen : store.expand? (store.seenNode? style) handle = none := by
      rw [seenNode?, if_pos unlimited]
      exact noTree
    rw [Store.dump, lines?_eq, unseen]
    rfl
  · rw [Store.footprint, memory?_tight_eq consistent, noTree]
    rfl
  · intro ordered
    have noClone := clone?_eq_none consistent cyclic
    cases handle with
    | node | list => simp [apply, noClone, require]
    | note | block | table => exact ordered.elim

section Steps

/-- The operation is carried out and puts an object into one that can be
reached from it. -/
def ClosesCycle (store : Store) (operation : Operation) : Prop :=
  ∃ target child changed, operation.child? = some child ∧
    store.apply operation = .ok (target, changed) ∧
    store.Reaches child target

/-- A change makes a cycle exactly if what it puts into an object leads back to
that object. -/
theorem Change.acyclic_iff {operation : Operation} {changed : Store}
    (change : store.Change operation handle changed) (closed : store.Closed)
    (acyclic : store.Acyclic) :
    changed.Acyclic ↔
      ∀ child, operation.child? = some child → ¬store.Reaches child handle := by
  cases change with
  | creation noTarget creation =>
      have noChild : operation.child? = none := by
        cases operation <;> first | rfl | cases noTarget
      refine iff_of_true (creation.addsTo.acyclic closed acyclic) ?_
      intro child held
      cases noChild.symm.trans held
  | mutation target mutation =>
      obtain ⟨object, rewrites⟩ := mutation.exists_rewrites
      constructor
      · intro acyclicChanged child held reaches
        exact rewrites.updates.not_acyclic (rewrites.holds child held) reaches
          acyclicChanged
      · intro apart
        refine rewrites.updates.acyclic acyclic fun part member => ?_
        rcases rewrites.held part member with old | new
        · exact .inl old
        · exact .inr (apart part new)

theorem acyclic_run_singleton_iff (closed : store.Closed)
    (acyclic : store.Acyclic) (operation : Operation) :
    (store.run [operation]).Acyclic ↔ ¬store.ClosesCycle operation := by
  cases result : store.apply operation with
  | ok outcome =>
      obtain ⟨target, changed⟩ := outcome
      rw [run_singleton_of_ok result, (Change.ofApply result).acyclic_iff closed acyclic]
      simp [ClosesCycle, result]
  | error reason =>
      rw [run_singleton_of_error result]
      exact iff_of_true acyclic (by simp [ClosesCycle, result])

/-- The first cycle in a run is made by an operation that closes one. -/
theorem forall_prefix_acyclic_iff (closed : store.Closed)
    (acyclic : store.Acyclic) (operations : List Operation) :
    (∀ earlier, earlier <+: operations → (store.run earlier).Acyclic) ↔
      EachStep (fun store operation => ¬store.ClosesCycle operation) store
        operations := by
  induction operations generalizing store with
  | nil =>
      refine iff_of_true (fun earlier short => ?_) trivial
      cases List.prefix_nil.mp short
      exact acyclic
  | cons operation rest induction =>
      have closedNext : (store.run [operation]).Closed :=
        run_preserves (fun closed change => change.closed closed) closed _
      constructor
      · intro all
        have acyclicNext := all [operation] (by simp)
        refine ⟨(acyclic_run_singleton_iff closed acyclic operation).mp
          acyclicNext, (induction closedNext acyclicNext).mp ?_⟩
        intro earlier short
        exact all (operation :: earlier) (List.cons_prefix_cons.mpr ⟨rfl, short⟩)
      · rintro ⟨first, later⟩ earlier short
        have acyclicNext :=
          (acyclic_run_singleton_iff closed acyclic operation).mpr first
        cases earlier with
        | nil => exact acyclic
        | cons operation' earlier =>
            obtain ⟨rfl, shorter⟩ := List.cons_prefix_cons.mp short
            exact (induction closedNext acyclicNext).mpr later earlier shorter

end Steps

theorem acyclic_empty : Acyclic ({} : Store) := by
  intro handle cycle
  obtain ⟨part, owns, -⟩ := Relation.TransGen.head'_iff.mp cycle
  have found := has_of_owns owns
  cases handle <;> cases found

/-- No object comes to hold itself exactly as long as no operation closes a
cycle.  All objects answer then, and those above a cycle refuse. -/
theorem acyclic_iff_eachStep (operations : List Operation) :
    ((∀ earlier, earlier <+: operations → (run {} earlier).Acyclic) ↔
      EachStep (fun store operation => ¬store.ClosesCycle operation) {}
        operations) ∧
    ((run {} operations).Acyclic →
      ∀ handle, (run {} operations).Has handle →
        (run {} operations).Answers handle) ∧
    ∀ handle, ¬(run {} operations).AcyclicFrom handle →
      (run {} operations).Refuses handle := by
  have consistent := consistent_run operations
  have closed := closed_run operations
  refine ⟨forall_prefix_acyclic_iff closed_empty acyclic_empty operations,
    ?_, ?_⟩
  · intro acyclic handle has
    obtain ⟨tree, unfolds⟩ := (exists_unfolding?_iff consistent closed).mpr
      ⟨has, acyclic.acyclicFrom handle⟩
    exact answers_of_unfolding?_eq_some consistent closed unfolds
  · intro handle cyclic
    exact refuses_of_not_acyclicFrom consistent cyclic

section OwnArguments

variable {id : NodeId} {type : ValueType} {tag : Tag} {list : ListId}

/-- A direct call holds itself once it is among its own arguments. -/
theorem transGen_owns_self_of_add {name : String} {changed : Store}
    (call : store.node? id = some (.directCall type tag list))
    (result : store.apply (.add (.list list) (some name) (.node id)) =
      .ok (handle, changed)) :
    Relation.TransGen changed.Owns (.node id) (.node id) := by
  simp only [apply] at result
  obtain ⟨rfl, mutation⟩ := Mutation.ofAdd result
  obtain ⟨object, rewrites⟩ := mutation.exists_rewrites
  have different : Handle.node id ≠ .list list := Handle.noConfusion
  have callOwns : changed.Owns (.node id) (.list list) := by
    rw [Owns, rewrites.updates.children_other different,
      children_of_object?_eq_some (object?_node_eq_some_iff.mpr call)]
    exact List.mem_singleton_self _
  have listOwns : changed.Owns (.list list) (.node id) := by
    rw [Owns, rewrites.updates.children_self]
    exact rewrites.holds _ rfl
  exact .head callOwns (.single listOwns)

end OwnArguments

/-- A direct call is put into the list of its own arguments. -/
def selfHoldingCall : List Operation :=
  [.newList, .newDirectCall (.basic .material) ⟨7⟩ (.list ⟨0⟩),
    .add (.list ⟨0⟩) (some "self") (.node ⟨0⟩)]

theorem not_acyclic_selfHoldingCall :
    ¬(run {} selfHoldingCall).Acyclic ∧
      (run {} selfHoldingCall).Has (.node ⟨0⟩) ∧
      (run {} selfHoldingCall).encode (.node ⟨0⟩) = .error .noTree := by
  let before := run {} (selfHoldingCall.take 2)
  have call : before.node? ⟨0⟩ =
      some (.directCall (.basic .material) ⟨7⟩ ⟨0⟩) := rfl
  have arguments : before.list? ⟨0⟩ = some {} := rfl
  obtain ⟨extended, result, -⟩ := exists_apply_add Named.consistent_empty
    arguments call (List.not_mem_nil : "self" ∉ [])
  have ran : run {} selfHoldingCall = before.setList ⟨0⟩ extended :=
    run_singleton_of_ok result
  have cycle := transGen_owns_self_of_add call result
  rw [← ran] at cycle
  have refuses : (run {} selfHoldingCall).Refuses (.node ⟨0⟩) :=
    refuses_of_not_acyclicFrom (consistent_run _)
      fun acyclic => acyclic _ .refl cycle
  refine ⟨fun acyclic => acyclic _ cycle, ?_, refuses.encodes⟩
  obtain ⟨list, owns, -⟩ := Relation.TransGen.head'_iff.mp cycle
  exact has_of_owns owns

end Store

end MaterialGraph
