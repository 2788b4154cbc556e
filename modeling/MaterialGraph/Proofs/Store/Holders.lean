import MaterialGraph.Proofs.Store.Edits
import MaterialGraph.Proofs.Store.Forest
import MaterialGraph.Proofs.Store.Sharing

/-!
# A change is seen by the holders of an object

When an object is changed, the trees of those that do not hold it stay what they
were.  In the tree of a holder the change happens at every place at which the
object occurs, which are the paths that lead to it, and at no other place.
-/

namespace MaterialGraph

section Assembly

variable {edit : TreeEdit} {places : Places}

theorem map_fst_mapIdx {β : Type} {change : Nat → String × β → String × β}
    (keeps : ∀ index entry, (change index entry).1 = entry.1)
    (entries : List (String × β)) :
    (entries.mapIdx change).map Prod.fst = entries.map Prod.fst := by
  apply List.ext_getElem?
  intro index
  simp [Function.comp_def, keeps]

/-- If there is a result for each child, and it comes to be another one, then
the new results are the former ones changed by their positions. -/
theorem map_eq_map_mapIdx {α β : Type} {children : List α} {found : List β}
    {former later : α → Option β} {change : Nat → β → β}
    (all : children.map former = found.map some)
    (changes : ∀ index child result, children[index]? = some child →
      former child = some result → later child = some (change index result)) :
    children.map later = (found.mapIdx change).map some := by
  apply List.ext_getElem?
  intro index
  have here := congrArg (·[index]?) all
  simp only [List.getElem?_map, List.getElem?_mapIdx] at here ⊢
  cases taken : children[index]? with
  | none =>
      rw [taken, Option.map_none, eq_comm, Option.map_eq_none_iff] at here
      rw [here]
      rfl
  | some child =>
      rw [taken, Option.map_some, eq_comm, Option.map_eq_some_iff] at here
      obtain ⟨result, inFound, same⟩ := here
      rw [inFound]
      exact congrArg some (changes index child result taken same.symm)

/-- An object is put together from changed parts as its tree is changed below
the root. -/
theorem Object.Assembles.editAt {object : Object} {trees : List Tree}
    {tree : Tree} (assembles : object.Assembles trees tree)
    (elsewhere : places [] = false) :
    object.Assembles
      (trees.mapIdx fun index part => part.editAt edit (places.below index))
      (tree.editAt edit places) := by
  cases assembles with
  | @leaf node expression alone =>
      have same : expression.editAt edit places = expression := by
        cases node with
        | constant | call | parameter | temporary =>
            cases alone
            exact Places.atRoot_eq_self elsewhere _ _
        | directCall => cases alone
      rw [Tree.editAt, same]
      exact .leaf alone
  | directCall arguments =>
      rw [Tree.editAt, Expression.editAt, Places.atRoot_eq_self elsewhere]
      exact .directCall (Arguments.editAt edit (places.below 0) arguments)
  | list names =>
      rw [Tree.editAt, Arguments.editAt, Places.atRoot_eq_self elsewhere,
        Expression.editEntriesAt_eq_mapIdx]
      have trees : ∀ entries : Arguments,
          (entries.map fun entry => Tree.expression entry.2).mapIdx
            (fun index part => part.editAt edit (places.below index)) =
          (entries.mapIdx fun index entry =>
            (entry.1, entry.2.editAt edit (places.below (0 + index)))).map
              fun entry => .expression entry.2 := by
        intro entries
        apply List.ext_getElem?
        intro index
        simp [Function.comp_def, Tree.editAt]
      rw [trees]
      refine .list (Eq.trans ?_ names)
      apply map_fst_mapIdx
      intro index entry
      rfl
  | note arguments =>
      rw [Tree.editAt, AnnotationCall.editAt, Places.atRoot_eq_self elsewhere]
      exact .note (Arguments.editAt edit (places.below 0) arguments)
  | block calls =>
      rw [Tree.editAt, AnnotationBlock.editAt, Places.atRoot_eq_self elsewhere]
      have trees : (calls.map Tree.annotationCall).mapIdx
            (fun index part => part.editAt edit (places.below index)) =
          (calls.mapIdx fun index call =>
            call.editAt edit (places.below index)).map .annotationCall := by
        apply List.ext_getElem?
        intro index
        simp [Function.comp_def, Tree.editAt]
      rw [trees]
      exact .block _
  | table names =>
      rw [Tree.editAt, AnnotationTable.editAt, Places.atRoot_eq_self elsewhere]
      have trees : ∀ entries : AnnotationTable,
          (entries.map fun entry => Tree.annotationBlock entry.2).mapIdx
            (fun index part => part.editAt edit (places.below index)) =
          (entries.mapIdx fun index entry => (entry.1,
            AnnotationBlock.editAt edit (places.below index) entry.2)).map
              fun entry => .annotationBlock entry.2 := by
        intro entries
        apply List.ext_getElem?
        intro index
        simp [Function.comp_def, Tree.editAt]
      rw [trees]
      refine .table (Eq.trans ?_ names)
      apply map_fst_mapIdx
      intro index entry
      rfl

end Assembly

namespace Store

/-- The places at which a part occurs in an object that holds it. -/
def placesOf (store : Store) (part : Handle) : Handle → Places
  | holder, [] => decide (holder = part)
  | holder, index :: rest =>
      match (store.children holder)[index]? with
      | some child => store.placesOf part child rest
      | none => false

section Occurrences

variable {store : Store} {holder part : Handle}

/-- A part occurs where a path leads to it. -/
theorem placesOf_iff {path : List Nat} :
    store.placesOf part holder path = true ↔ store.Path holder path part := by
  induction path generalizing holder with
  | nil =>
      rw [placesOf, decide_eq_true_iff]
      constructor
      · rintro rfl
        exact .here holder
      · rintro ⟨⟩
        rfl
  | cons index rest induction =>
      rw [placesOf]
      constructor
      · intro occurs
        split at occurs
        · rename_i child taken
          exact .down taken (induction.mp occurs)
        · cases occurs
      · intro way
        cases way with
        | down taken below =>
            rw [taken]
            exact induction.mpr below

theorem below_placesOf {index : Nat} {child : Handle}
    (taken : (store.children holder)[index]? = some child) :
    (store.placesOf part holder).below index = store.placesOf part child := by
  funext path
  rw [Places.below, placesOf, taken]

theorem placesOf_nil_of_ne (different : holder ≠ part) :
    store.placesOf part holder [] = false := by
  rw [placesOf, decide_eq_false different]

/-- In an object that does not hold a part, the part does not occur. -/
theorem isEmpty_placesOf (apart : ¬store.Reaches holder part) :
    (store.placesOf part holder).IsEmpty := by
  intro path
  rw [Bool.eq_false_iff]
  intro occurs
  exact apart (reaches_iff_exists_path.mpr ⟨path, placesOf_iff.mp occurs⟩)

/-- An object does not occur below itself. -/
theorem isEmpty_below_placesOf (acyclic : store.AcyclicFrom part)
    (index : Nat) : ((store.placesOf part part).below index).IsEmpty := by
  cases taken : (store.children part)[index]? with
  | none =>
      intro path
      rw [Places.below, placesOf, taken]
  | some child =>
      rw [below_placesOf taken]
      apply isEmpty_placesOf
      intro reaches
      have owns : store.Owns part child := List.mem_of_getElem? taken
      exact acyclic part .refl (.head' owns reaches)

end Occurrences

section Change

variable {store changed : Store} {operation : Operation}
  {target holder : Handle} {object edited : Object} {tree : Tree}

/-- What does not lead to the object that is changed stays as it is. -/
theorem Applies.sameBelow
    (applies : store.Applies operation target object edited changed)
    (apart : ¬store.Reaches holder target) : store.SameBelow holder changed := by
  intro part reaches
  apply applies.updates.object?_other
  rintro rfl
  exact apart reaches

theorem Applies.sameBelow_former
    (applies : store.Applies operation target object edited changed)
    (apart : ¬changed.Reaches holder target) :
    changed.SameBelow holder store := by
  intro part reaches
  symm
  apply applies.updates.object?_other
  rintro rfl
  exact apart reaches

/-- The tree of the object that is changed is the former tree, edited. -/
theorem Applies.unfolding?_target
    (applies : store.Applies operation target object edited changed)
    (consistent : store.Consistent) (consistent' : changed.Consistent)
    (closed' : changed.Closed) (acyclic' : changed.AcyclicFrom target)
    (unfolds : store.unfolding? target = some tree) :
    changed.unfolding? target =
      some (tree.edit (operation.treeEdit
        (operation.child?.bind store.unfolding?))) := by
  obtain ⟨after, unfolds'⟩ := (exists_unfolding?_iff consistent' closed').mpr
    ⟨applies.updates.has_self, acyclic'⟩
  obtain ⟨_, found, trees, parts, assembles⟩ :=
    (unfolding?_eq_some_iff_assembles consistent).mp unfolds
  cases applies.found.symm.trans found
  obtain ⟨_, found', trees', parts', assembles'⟩ :=
    (unfolding?_eq_some_iff_assembles consistent').mp unfolds'
  cases applies.updates.object?_self.symm.trans found'
  -- the parts of the changed object do not lead back to it, so that they have
  -- the trees that they had before
  have formerParts : edited.children.map store.unfolding? = trees'.map some := by
    rw [← parts']
    apply List.map_congr_left
    intro part held
    have owns : changed.Owns target part := by
      rwa [Owns, applies.updates.children_self]
    have apart : ¬changed.Reaches part target :=
      fun reaches => acyclic' target .refl (.head' owns reaches)
    obtain ⟨partTree, unfoldsPart, -⟩ :=
      exists_unfolding?_of_owns consistent' unfolds' owns
    rw [unfoldsPart]
    exact (applies.sameBelow_former apart).unfolding?_eq_some consistent'
      consistent unfoldsPart
  have inStep := consistent.object applies.found
  have inStep' := consistent'.object applies.updates.object?_self
  rw [unfolds', applies.edits.edit_eq inStep inStep' parts formerParts assembles
    assembles']

/-- The tree of an object is edited at the places of the object that is
changed. -/
theorem Applies.unfolding?_holder
    (applies : store.Applies operation target object edited changed)
    (consistent : store.Consistent) (consistent' : changed.Consistent)
    (closed' : changed.Closed)
    (acyclic' : store.Reaches holder target → changed.AcyclicFrom target)
    (unfolds : store.unfolding? holder = some tree) :
    changed.unfolding? holder =
      some (tree.editAt
        (operation.treeEdit (operation.child?.bind store.unfolding?))
        (store.placesOf target holder)) := by
  -- the induction is on the size of the tree, which the parts do not reach
  induction size : sizeOf tree using Nat.strongRecOn
    generalizing holder tree with
  | _ size induction =>
      subst size
      by_cases same : holder = target
      · subst same
        have acyclic := acyclicFrom_of_unfolding?_eq_some consistent unfolds
        have here : store.placesOf holder holder [] = true :=
          placesOf_iff.mpr (.here holder)
        rw [tree.editAt_eq_edit here (isEmpty_below_placesOf acyclic)]
        exact applies.unfolding?_target consistent consistent' closed'
          (acyclic' .refl) unfolds
      · obtain ⟨found, there, trees, parts, assembles⟩ :=
          (unfolding?_eq_some_iff_assembles consistent).mp unfolds
        apply (unfolding?_eq_some_iff_assembles consistent').mpr
        refine ⟨found, (applies.updates.object?_other same).trans there, _, ?_,
          assembles.editAt (placesOf_nil_of_ne same)⟩
        apply map_eq_map_mapIdx parts
        intro index child part taken unfoldsChild
        rw [← children_of_object?_eq_some there] at taken
        have owns : store.Owns holder child := List.mem_of_getElem? taken
        obtain ⟨_, again, smaller⟩ :=
          exists_unfolding?_of_owns consistent unfolds owns
        cases unfoldsChild.symm.trans again
        rw [below_placesOf taken]
        exact induction _ smaller (fun reaches => acyclic' (.head owns reaches))
          unfoldsChild rfl

/-- A change that puts nothing into the object makes no cycle. -/
theorem Rewrites.acyclicFrom
    (rewrites : store.Rewrites target none object changed)
    (acyclic : store.AcyclicFrom holder) : changed.AcyclicFrom holder := by
  have owns_of_owns : ∀ owner part, changed.Owns owner part →
      store.Owns owner part := by
    intro owner part owns
    by_cases same : owner = target
    · subst same
      rw [Owns, rewrites.updates.children_self] at owns
      rcases rewrites.held part owns with held | new
      · exact held
      · cases new
    · rwa [Owns, rewrites.updates.children_other same] at owns
  intro part reaches cycle
  exact acyclic part (Relation.ReflTransGen.mono owns_of_owns _ _ reaches)
    (Relation.TransGen.mono owns_of_owns _ _ cycle)

end Change

/-- A change of an object is seen by exactly those that hold it.  Objects that
do not lead to it keep their bytes, their dumps and their order.  In the tree of
a holder the same change has been made wherever a path leads to the object. -/
theorem mutation_seen_by_holders (operations : List Operation)
    {operation : Operation} {target : Handle} {changed : Store}
    (mutates : operation.target? = some target)
    (result : (run {} operations).apply operation = .ok (target, changed)) :
    (∀ holder, (run {} operations).Has holder →
      (run {} operations).AcyclicFrom holder →
      ¬(run {} operations).Reaches holder target →
        SameView (run {} operations) holder changed holder ∧
        ∀ other, (run {} operations).Has other →
          (run {} operations).AcyclicFrom other →
          ¬(run {} operations).Reaches other target →
            changed.compare holder other =
              (run {} operations).compare holder other) ∧
    ∀ holder, (run {} operations).Has holder →
      (run {} operations).AcyclicFrom holder → changed.AcyclicFrom holder →
      (run {} operations).Reaches holder target →
        ∃ tree after places,
          (run {} operations).unfolding? holder = some tree ∧
          (∀ path, places path = true ↔
            (run {} operations).Path holder path target) ∧
          after = tree.editAt (operation.treeEdit
            (operation.child?.bind (run {} operations).unfolding?)) places ∧
          changed.unfolding? holder = some after ∧
          changed.encode holder = .ok after.encode := by
  have consistent := consistent_run operations
  have closed := closed_run operations
  have change := Change.ofApply result
  have consistent' := change.consistent consistent
  have closed' := change.closed closed
  obtain ⟨object, edited, applies⟩ := exists_applies mutates result
  constructor
  · intro holder has acyclic apart
    obtain ⟨tree, unfolds⟩ :=
      (exists_unfolding?_iff consistent closed).mpr ⟨has, acyclic⟩
    have unfolds' := (applies.sameBelow apart).unfolding?_eq_some consistent
      consistent' unfolds
    refine ⟨.ofUnfolding? consistent consistent' unfolds unfolds', ?_⟩
    intro other hasOther acyclicOther apartOther
    obtain ⟨otherTree, unfoldsOther⟩ :=
      (exists_unfolding?_iff consistent closed).mpr ⟨hasOther, acyclicOther⟩
    have unfoldsOther' := (applies.sameBelow apartOther).unfolding?_eq_some
      consistent consistent' unfoldsOther
    rw [compare_eq consistent unfolds unfoldsOther,
      compare_eq consistent' unfolds' unfoldsOther']
  · intro holder has acyclic acyclic' reaches
    obtain ⟨tree, unfolds⟩ :=
      (exists_unfolding?_iff consistent closed).mpr ⟨has, acyclic⟩
    have reaches' := applies.updates.reaches_of_reaches reaches
    have acyclicTarget : changed.AcyclicFrom target :=
      fun part below => acyclic' part (reaches'.trans below)
    have unfolds' := applies.unfolding?_holder consistent consistent' closed'
      (fun _ => acyclicTarget) unfolds
    exact ⟨tree, _, _, unfolds, fun _ => placesOf_iff, rfl, unfolds',
      encode_eq_ok consistent' unfolds'⟩

theorem children_sharedConstant :
    (run {} sharedConstant).children (.list ⟨0⟩) =
      [.node ⟨0⟩, .node ⟨0⟩] := by
  obtain ⟨list, consistent, entries, ran⟩ := exists_run_sharedConstant
  rw [ran]
  simp [Store.children, object?, list?, Object.children,
    ← consistent.children_toList, entries]

/-- A constant that a list holds under two names is changed under both. -/
theorem mutation_seen_by_holders_sharedConstant :
    ∃ changed,
      (run {} sharedConstant).apply
        (.setValue (.node ⟨0⟩) (.basic (.int 2))) =
          .ok (.node ⟨0⟩, changed) ∧
      changed.unfolding? (.list ⟨0⟩) = some (.arguments
        [("left", .constant (.basic .int) (.basic (.int 2))),
          ("right", .constant (.basic .int) (.basic (.int 2)))]) := by
  have consistent := consistent_run sharedConstant
  have unfolds := unfolding?_sharedConstant
  have acyclic := acyclicFrom_of_unfolding?_eq_some consistent unfolds
  obtain ⟨changed, result⟩ : ∃ changed, (run {} sharedConstant).apply
      (.setValue (.node ⟨0⟩) (.basic (.int 2))) = .ok (.node ⟨0⟩, changed) := by
    obtain ⟨list, -, -, ran⟩ := exists_run_sharedConstant
    rw [ran]
    exact ⟨_, rfl⟩
  have left : (run {} sharedConstant).Path (.list ⟨0⟩) [0] (.node ⟨0⟩) :=
    .down (by rw [children_sharedConstant]; rfl) (.here _)
  have right : (run {} sharedConstant).Path (.list ⟨0⟩) [1] (.node ⟨0⟩) :=
    .down (by rw [children_sharedConstant]; rfl) (.here _)
  have acyclic' : changed.AcyclicFrom (.list ⟨0⟩) := by
    cases Change.ofApply result with
    | creation noTarget => cases noTarget
    | mutation _ mutation =>
        obtain ⟨object, rewrites⟩ := mutation.exists_rewrites
        exact rewrites.acyclicFrom acyclic
  have seen := (mutation_seen_by_holders sharedConstant rfl result).2
  obtain ⟨tree, after, places, unfolds', occurs, rfl, unfoldsAfter, -⟩ :=
    seen (.list ⟨0⟩) (has_of_unfolding?_eq_some consistent unfolds) acyclic
      acyclic' (reaches_iff_exists_path.mpr ⟨[0], left⟩)
  cases unfolds.symm.trans unfolds'
  have elsewhere : places [] = false := by
    rw [Bool.eq_false_iff]
    intro here
    cases (occurs []).mp here
  refine ⟨changed, result, ?_⟩
  rw [unfoldsAfter]
  simp [pairedConstants, Tree.editAt, Arguments.editAt,
    Expression.editEntriesAt, Expression.editAt, Places.atRoot, Places.below,
    elsewhere, (occurs [0]).mpr left, (occurs [1]).mpr right,
    Operation.treeEdit, Expression.withValue]

end Store

end MaterialGraph
