import MaterialGraph.Proofs.Store.Leaves

/-!
# Clones and their originals do not affect each other

An object keeps its bytes and its dumps through every run that changes nothing
below it.  Below a clone everything is new, and below its original nothing is,
so that changes of the one spare the other.
-/

namespace MaterialGraph

/-- The operation makes an object, or changes one of which a condition does not
hold. -/
def Operation.Spares (operation : Operation) (held : Handle → Prop) : Prop :=
  ∀ target, operation.target? = some target → ¬held target

namespace Store

/-- Two objects, perhaps of different stores, have the same bytes and the same
dumps. -/
structure SameView (store : Store) (handle : Handle) (store' : Store)
    (handle' : Handle) : Prop where
  encodes : ∃ bytes, store.encode handle = .ok bytes ∧
    store'.encode handle' = .ok bytes
  dumps : ∀ style name, ∃ text, store.dump style name handle = .ok text ∧
    store'.dump style name handle' = .ok text

theorem SameView.ofUnfolding? {store store' : Store} {handle handle' : Handle}
    {tree : Tree} (consistent : store.Consistent)
    (consistent' : store'.Consistent)
    (unfolds : store.unfolding? handle = some tree)
    (unfolds' : store'.unfolding? handle' = some tree) :
    SameView store handle store' handle' where
  encodes := ⟨tree.encode, encode_eq_ok consistent unfolds,
    encode_eq_ok consistent' unfolds'⟩
  dumps style name :=
    ⟨_, dump_eq_ok unfolds style name, dump_eq_ok unfolds' style name⟩

section Frame

variable {base store changed : Store} {handle written : Handle}
  {operation : Operation}

/-- A change that spares everything below an object leaves it as it is. -/
theorem SameBelow.change (same : base.SameBelow handle store)
    (closed : base.Closed) (has : base.Has handle)
    (spares : operation.Spares (base.Reaches handle))
    (change : store.Change operation written changed) :
    base.SameBelow handle changed := by
  intro part reaches
  have sameBefore := same part reaches
  cases change with
  | creation _ creation =>
      have present : store.Has part := by
        rw [Has, sameBefore]
        exact closed.has_of_reaches reaches has
      rw [creation.addsTo.grows.object?_eq_of_has present, sameBefore]
  | mutation target mutation =>
      obtain ⟨object, rewrites⟩ := mutation.exists_rewrites
      have different : part ≠ written := by
        rintro rfl
        exact spares part target reaches
      rw [rewrites.updates.object?_other different, sameBefore]

theorem sameBelow_run (closed : base.Closed) (has : base.Has handle)
    {operations : List Operation}
    (spare : ∀ operation ∈ operations,
      operation.Spares (base.Reaches handle)) :
    base.SameBelow handle (base.run operations) := by
  have each : EachStep
      (fun _ operation => operation.Spares (base.Reaches handle)) base
      operations :=
    eachStep_of_forall (fun operation member _ => spare operation member) base
  have unchanged : base.SameBelow handle base := fun _ _ => rfl
  exact run_preserves_of_eachStep
    (fun same spares change => same.change closed has spares change) unchanged
    each

theorem Consistent.run (consistent : base.Consistent)
    (operations : List Operation) : (base.run operations).Consistent :=
  run_preserves (fun consistent change => change.consistent consistent)
    consistent operations

/-- An object keeps its tree through a run that changes nothing below it. -/
theorem unfolding?_run {tree : Tree} (consistent : base.Consistent)
    (closed : base.Closed) (unfolds : base.unfolding? handle = some tree)
    {operations : List Operation}
    (spare : ∀ operation ∈ operations,
      operation.Spares (base.Reaches handle)) :
    (base.run operations).unfolding? handle = some tree := by
  have has := has_of_unfolding?_eq_some consistent unfolds
  exact (sameBelow_run closed has spare).unfolding?_eq_some consistent
    (consistent.run operations) unfolds

/-- What is below an object that was there was there too. -/
theorem GrowsTo.has_of_reaches {old new : Store} (grows : old.GrowsTo new)
    (closed : old.Closed) (has : old.Has handle) {part : Handle}
    (reaches : new.Reaches handle part) : old.Has part := by
  induction reaches with
  | refl => exact has
  | tail _ owns induction =>
      rw [Owns, grows.children_of_has induction] at owns
      exact closed owns

end Frame

/-- A clone is a tree of new objects that looks like its original and holds the
very same types and values: whatever a store has for them, the clone has what
its original has.  Afterwards neither is affected by changes of the other. -/
theorem clone_fresh_and_independent (operations : List Operation)
    {source : Handle} (has : (run {} operations).Has source)
    (acyclic : (run {} operations).AcyclicFrom source)
    (ordered : source.form.IsOrdered) :
    ∃ copy changed tree,
      (run {} operations).apply (.clone source) = .ok (copy, changed) ∧
      (∀ part, changed.Reaches copy part →
        ¬(run {} operations).Has part ∧
          ∃! path, changed.Path copy path part) ∧
      (∀ (Types Values : Type) (type : Types → ValueType)
        (value : Values → Value) (references : Store Types Values),
        references.relabel type value = run {} operations →
          ∃ referring, references.clone? source = some (copy, referring) ∧
            referring.relabel type value = changed ∧
            referring.HoldsAs copy references source) ∧
      (run {} operations).unfolding? source = some tree ∧
      changed.unfolding? source = some tree ∧
      changed.unfolding? copy = some tree ∧
      SameView changed source changed copy ∧
      changed.compare source copy = .ok .eq ∧
      (∀ later,
        (∀ operation ∈ later, operation.Spares (run {} operations).Has) →
          SameView changed source (changed.run later) source) ∧
      (∀ later,
        (∀ operation ∈ later, operation.Spares (changed.Reaches copy)) →
          SameView changed copy (changed.run later) copy) := by
  have consistent := consistent_run operations
  have closed := closed_run operations
  obtain ⟨tree, unfolds⟩ :=
    (exists_unfolding?_iff consistent closed).mpr ⟨has, acyclic⟩
  have form := form_of_unfolding?_eq_some unfolds
  obtain ⟨copy, changed, cloned⟩ :=
    exists_clone? consistent unfolds (form ▸ ordered)
  have isClone := IsClone.ofClone? cloned
  have consistentChanged := isClone.adds.consistent consistent
  have closedChanged := isClone.adds.closed closed
  have unfoldsLater := isClone.adds.grows.unfolding? unfolds
  have unfoldsCopy : changed.unfolding? copy = some tree := by
    obtain ⟨tree', unfolds', unfoldsCopy⟩ := isClone.sameTree
    cases unfoldsLater.symm.trans unfolds'
    exact unfoldsCopy
  have compared := tree.compare?_self (form ▸ ordered)
  refine ⟨copy, changed, tree, (apply_clone_eq_ok_iff ordered).mpr cloned,
    fun part reaches => isClone.forest.existsUnique_path reaches, ?_, unfolds,
    unfoldsLater, unfoldsCopy,
    .ofUnfolding? consistentChanged consistentChanged unfoldsLater unfoldsCopy,
    compare_eq_ok consistentChanged unfoldsLater unfoldsCopy compared, ?_, ?_⟩
  · intro Types Values type value references same
    rw [← same] at cloned consistent closed
    obtain ⟨referring, found, sameLater⟩ := exists_clone?_of_relabel cloned
    exact ⟨referring, found, sameLater, holdsAs_of_clone?
      ((consistent_relabel_iff type value references).mp consistent)
      ((closed_relabel_iff type value references).mp closed) found⟩
  · intro later spare
    have spareSource : ∀ operation ∈ later,
        operation.Spares (changed.Reaches source) := by
      intro operation member target isTarget reaches
      exact spare operation member target isTarget
        (isClone.adds.grows.has_of_reaches closed has reaches)
    exact .ofUnfolding? consistentChanged (consistentChanged.run later)
      unfoldsLater (unfolding?_run consistentChanged closedChanged unfoldsLater
        spareSource)
  · intro later spare
    exact .ofUnfolding? consistentChanged (consistentChanged.run later)
      unfoldsCopy
      (unfolding?_run consistentChanged closedChanged unfoldsCopy spare)

/-- A list that holds one expression under two names. -/
def sharedConstant : List Operation :=
  [.newConstant (.basic (.int 1)), .newList,
    .add (.list ⟨0⟩) (some "left") (.node ⟨0⟩),
    .add (.list ⟨0⟩) (some "right") (.node ⟨0⟩)]

theorem exists_run_sharedConstant :
    ∃ list : Named NodeId, list.Consistent ∧
      list.toList = [("left", ⟨0⟩), ("right", ⟨0⟩)] ∧
      run {} sharedConstant =
        { nodes := #[.constant (.basic .int) (.basic (.int 1))],
          lists := #[list] } := by
  let before := run {} (sharedConstant.take 2)
  have constant : before.node? ⟨0⟩ =
      some (.constant (.basic .int) (.basic (.int 1))) := rfl
  have empty : before.list? ⟨0⟩ = some {} := rfl
  obtain ⟨single, result, consistent, entries⟩ := exists_apply_add
    Named.consistent_empty empty constant (List.not_mem_nil : "left" ∉ [])
  have inside : (before.setList ⟨0⟩ single).list? ⟨0⟩ = some single := rfl
  have absent : "right" ∉ single.toList.map Prod.fst := by
    rw [entries]
    decide
  obtain ⟨both, result', consistent', entries'⟩ :=
    exists_apply_add consistent inside constant absent
  refine ⟨both, consistent', by rw [entries', entries]; rfl, ?_⟩
  have ran : run {} (sharedConstant.take 3) = before.setList ⟨0⟩ single :=
    run_singleton_of_ok result
  have ran' : run {} sharedConstant =
      (before.setList ⟨0⟩ single).setList ⟨0⟩ both := by
    rw [← run_singleton_of_ok result', ← ran]
    rfl
  exact ran'

/-- The same list, where the type of the constant is the type numbered 7 and its
value the value numbered 8. -/
def numberedConstant : Store (ValueType × Nat) (Value × Nat) :=
  (run {} sharedConstant).relabel (fun type => (type, 7)) fun value => (value, 8)

theorem clone_fresh_and_independent_sharedConstant :
    ∃ copy changed,
      (run {} sharedConstant).Path (.list ⟨0⟩) [0] (.node ⟨0⟩) ∧
      (run {} sharedConstant).Path (.list ⟨0⟩) [1] (.node ⟨0⟩) ∧
      (run {} sharedConstant).apply (.clone (.list ⟨0⟩)) =
        .ok (copy, changed) ∧
      (∀ part, changed.Reaches copy part →
        ∃! path, changed.Path copy path part) ∧
      (∃ referring, numberedConstant.clone? (.list ⟨0⟩) =
        some (copy, referring) ∧
        ∀ path id, referring.Path copy path (.node id) →
          referring.node? id =
            some (.constant (.basic .int, 7) (.basic (.int 1), 8))) ∧
      changed.compare (.list ⟨0⟩) copy = .ok .eq ∧
      SameView changed (.list ⟨0⟩)
        (changed.run [.setValue (.node ⟨1⟩) (.basic (.int 2))]) (.list ⟨0⟩) := by
  obtain ⟨list, consistent, entries, ran⟩ := exists_run_sharedConstant
  have children : (run {} sharedConstant).children (.list ⟨0⟩) =
      [.node ⟨0⟩, .node ⟨0⟩] := by
    rw [ran]
    simp [Store.children, object?, list?, Object.children,
      ← consistent.children_toList, entries]
  have unfolds : (run {} sharedConstant).unfolding? (.list ⟨0⟩) =
      some (.arguments
        [("left", .constant (.basic .int) (.basic (.int 1))),
          ("right", .constant (.basic .int) (.basic (.int 1)))]) := by
    rw [ran]
    simp [unfolding?, expand?, expandList?, list?, entries, mapEntries?,
      unfoldNode?, node?, Node.expand?]
  have has := has_of_unfolding?_eq_some (consistent_run _) unfolds
  have acyclic :=
    acyclicFrom_of_unfolding?_eq_some (consistent_run _) unfolds
  have spare : ∀ operation ∈
      [Operation.setValue (.node ⟨1⟩) (.basic (.int 2))],
      operation.Spares (run {} sharedConstant).Has := by
    simp [Operation.Spares, Operation.target?, ran, Has, object?, node?]
  obtain ⟨copy, changed, tree, cloned, fresh, holds, -, -, -, -, compared,
    spared, -⟩ := clone_fresh_and_independent sharedConstant has acyclic trivial
  refine ⟨copy, changed, .down ?_ (.here _), .down ?_ (.here _), cloned,
    fun part reaches => (fresh part reaches).2, ?_, compared, spared _ spare⟩
  · rw [children, List.getElem?_cons_zero]
  · rw [children, List.getElem?_cons_succ, List.getElem?_cons_zero]
  · have contents : numberedConstant.relabel Prod.fst Prod.fst =
        run {} sharedConstant := by
      rw [numberedConstant, ran]
      simp [relabel, Node.relabel]
    obtain ⟨referring, clonedNumbered, -, same⟩ :=
      holds _ _ Prod.fst Prod.fst numberedConstant contents
    refine ⟨referring, clonedNumbered, fun path id way => ?_⟩
    obtain ⟨id', node, node', -, found, found', sameType, sameValue⟩ :=
      same path id way
    have single : node = .constant (.basic .int, 7) (.basic (.int 1), 8) := by
      rw [numberedConstant, ran, node?_relabel, Option.map_eq_some_iff] at found
      obtain ⟨_, there, rfl⟩ := found
      rw [List.mem_singleton.mp (Array.mem_of_getElem? there).val]
      rfl
    rw [found']
    cases node' with
    | constant =>
        rw [single] at sameType sameValue
        cases sameType
        cases sameValue
        rfl
    | call | parameter | directCall | temporary =>
        rw [single] at sameValue
        cases sameValue

end Store

end MaterialGraph
