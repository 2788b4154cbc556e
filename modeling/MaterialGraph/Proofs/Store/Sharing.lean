import MaterialGraph.Proofs.Store.Copying
import MaterialGraph.Proofs.Store.Independence

/-!
# Sharing cannot be seen

What is read of an object without cycles is a function of its tree.  Two objects
with one tree, in one store or in two, have the same bytes and the same dumps,
compare in the same way with every third object, and have the same clones,
however differently their parts are shared.
-/

namespace MaterialGraph

namespace Store

variable {store : Store} {left right : Handle} {tree tree' : Tree}

/-- Objects of different forms, or of a form without an order, are not
compared. -/
theorem compare_eq_wrongSort
    (unfolds : store.unfolding? left = some tree)
    (unfolds' : store.unfolding? right = some tree')
    (unordered : tree.compare? tree' = none) :
    store.compare left right = .error .wrongSort := by
  cases left with
  | node left =>
      obtain ⟨root, -, rfl⟩ := Option.map_eq_some_iff.mp unfolds
      cases right with
      | node right =>
          obtain ⟨root', -, rfl⟩ := Option.map_eq_some_iff.mp unfolds'
          cases unordered
      | list | note | block | table => rfl
  | list left =>
      obtain ⟨entries, -, rfl⟩ := Option.map_eq_some_iff.mp unfolds
      cases right with
      | list right =>
          obtain ⟨entries', -, rfl⟩ := Option.map_eq_some_iff.mp unfolds'
          cases unordered
      | node | note | block | table => rfl
  | note | block | table => rfl

/-- Two objects with trees compare as the trees do, and are refused as the
trees are. -/
theorem compare_eq (consistent : store.Consistent)
    (unfolds : store.unfolding? left = some tree)
    (unfolds' : store.unfolding? right = some tree') :
    store.compare left right =
      (tree.compare? tree').elim (.error .wrongSort) .ok := by
  cases compared : tree.compare? tree' with
  | some order => exact compare_eq_ok consistent unfolds unfolds' compared
  | none => exact compare_eq_wrongSort unfolds unfolds' compared

theorem apply_clone_eq_place (built : store.Forall Object.IsBuilt)
    (unfolds : store.unfolding? left = some tree)
    (ordered : tree.form.IsOrdered) :
    store.apply (.clone left) = .ok (tree.place.run store) := by
  have cloned := clone?_eq built unfolds ordered
  rw [form_of_unfolding?_eq_some unfolds] at ordered
  exact (apply_clone_eq_ok_iff ordered).mpr cloned

/-- Objects with one tree cannot be told apart by bytes, by dumps, by comparing
or by cloning.  The order of two objects is that of their trees, which have no
identities, and a clone is the tree placed. -/
theorem sharing_invisible (operations operations' : List Operation)
    {handle handle' : Handle} (has : (run {} operations).Has handle)
    (acyclic : (run {} operations).AcyclicFrom handle)
    (sameTree : (run {} operations').unfolding? handle' =
      (run {} operations).unfolding? handle) :
    ∃ tree,
      (run {} operations).unfolding? handle = some tree ∧
      SameView (run {} operations) handle (run {} operations') handle' ∧
      (∀ other other', (run {} operations).Has other →
        (run {} operations).AcyclicFrom other →
        (run {} operations').unfolding? other' =
          (run {} operations).unfolding? other →
        ∃ tree',
          (run {} operations).unfolding? other = some tree' ∧
          (run {} operations).compare handle other =
            (tree.compare? tree').elim (.error .wrongSort) .ok ∧
          (run {} operations').compare handle' other' =
            (run {} operations).compare handle other ∧
          (run {} operations').compare other' handle' =
            (run {} operations).compare other handle) ∧
      (handle.form.IsOrdered →
        (run {} operations).apply (.clone handle) =
          .ok (tree.place.run (run {} operations)) ∧
        (run {} operations').apply (.clone handle') =
          .ok (tree.place.run (run {} operations'))) := by
  have consistent := consistent_run operations
  have consistent' := consistent_run operations'
  have closed := closed_run operations
  obtain ⟨tree, unfolds⟩ :=
    (exists_unfolding?_iff consistent closed).mpr ⟨has, acyclic⟩
  have unfolds' := sameTree.trans unfolds
  refine ⟨tree, unfolds,
    .ofUnfolding? consistent consistent' unfolds unfolds', ?_, ?_⟩
  · intro other other' hasOther acyclicOther sameOther
    obtain ⟨tree', unfoldsOther⟩ :=
      (exists_unfolding?_iff consistent closed).mpr ⟨hasOther, acyclicOther⟩
    have unfoldsOther' := sameOther.trans unfoldsOther
    refine ⟨tree', unfoldsOther, compare_eq consistent unfolds unfoldsOther,
      ?_, ?_⟩
    · rw [compare_eq consistent unfolds unfoldsOther,
        compare_eq consistent' unfolds' unfoldsOther']
    · rw [compare_eq consistent unfoldsOther unfolds,
        compare_eq consistent' unfoldsOther' unfolds']
  · intro ordered
    rw [← form_of_unfolding?_eq_some unfolds] at ordered
    exact ⟨apply_clone_eq_place (isBuilt_run operations) unfolds ordered,
      apply_clone_eq_place (isBuilt_run operations') unfolds' ordered⟩

/-- The tree of a list that holds a constant under two names. -/
def pairedConstants : Tree :=
  .arguments [("left", .constant (.basic .int) (.basic (.int 1))),
    ("right", .constant (.basic .int) (.basic (.int 1)))]

theorem unfolding?_sharedConstant :
    (run {} sharedConstant).unfolding? (.list ⟨0⟩) = some pairedConstants := by
  obtain ⟨list, -, entries, ran⟩ := exists_run_sharedConstant
  rw [ran]
  simp [unfolding?, expand?, expandList?, list?, entries, mapEntries?,
    unfoldNode?, node?, Node.expand?, pairedConstants]

/-- One constant under two names reads as two constants do. -/
theorem sharing_invisible_sharedConstant :
    SameView (run {} sharedConstant) (.list ⟨0⟩)
      (run {} [.place pairedConstants]) (pairedConstants.place.run {}).1 ∧
    (run {} sharedConstant).apply (.clone (.list ⟨0⟩)) =
      .ok (pairedConstants.place.run (run {} sharedConstant)) ∧
    (run {} [.place pairedConstants]).apply
        (.clone (pairedConstants.place.run {}).1) =
      .ok (pairedConstants.place.run (run {} [.place pairedConstants])) := by
  have consistent := consistent_run sharedConstant
  have unfolds := unfolding?_sharedConstant
  have distinct : pairedConstants.IsDistinct := by
    simp [Tree.IsDistinct, pairedConstants, Tree.parts, Arguments.parts,
      Expression.entryParts, Expression.parts, Part.IsDistinct]
  have unfolds' : (run {} [.place pairedConstants]).unfolding?
      (pairedConstants.place.run {}).1 = some pairedConstants :=
    pairedConstants.unfolding?_place {} distinct
  obtain ⟨tree, found, sameView, -, clones⟩ :=
    sharing_invisible sharedConstant [.place pairedConstants]
      (has_of_unfolding?_eq_some consistent unfolds)
      (acyclicFrom_of_unfolding?_eq_some consistent unfolds)
      (unfolds'.trans unfolds.symm)
  cases found.symm.trans unfolds
  exact ⟨sameView, clones trivial⟩

end Store

end MaterialGraph
