import MaterialGraph.Proofs.Named.Positions
import MaterialGraph.Proofs.Store.Contents
import MaterialGraph.Proofs.Store.Cycles

/-!
# A clone is the tree placed

To clone an object is to place its tree: the same objects are made in the same
order.  A clone can therefore not tell how the parts of the original are shared.
This rests on the fact that the entries of a list determine the list, down to
the map of its names.
-/

namespace MaterialGraph

/-- The map of a container that names its children is made by the names. -/
def Object.IsBuilt : Object → Prop
  | list named => named.IsBuilt
  | table named => named.IsBuilt
  | _ => True

theorem Named.IsBuilt.edit {α : Type} {named edited : Named α} {child : α}
    (built : named.IsBuilt) (edit : named.Edit child edited) :
    edited.IsBuilt := by
  cases edit with
  | set replaced => exact built.set replaced
  | add added => exact built.add added

theorem Expression.names_placeEntries (arguments : Arguments) (store : Store) :
    ((Expression.placeEntries arguments).run store).1.map Prod.fst =
      arguments.map Prod.fst := by
  induction arguments generalizing store with
  | nil => rfl
  | cons entry rest induction =>
      exact congrArg (entry.1 :: ·) (induction (entry.2.place.run store).2)

namespace Store

section Placing

variable {base : Store} {length : Nat}

/-- Expressions are cloned one after the other as entries are placed. -/
theorem run_mapM_cloneNode_eq
    (clones : ∀ {id : NodeId} {expression : Expression} {store : Store},
      base.unfoldNode? length id = some expression → base.GrowsTo store →
        StateT.run (cloneNode length id) store = some (expression.place.run store))
    {ids : List NodeId} {names : List String} {arguments : Arguments}
    (sameLength : names.length = ids.length)
    (unfolds : mapEntries? (base.unfoldNode? length) (names.zip ids) =
      some arguments) {store : Store} (grows : base.GrowsTo store) :
    StateT.run (ids.mapM (cloneNode length)) store =
      some (((Expression.placeEntries arguments).run store).1.map Prod.snd,
        ((Expression.placeEntries arguments).run store).2) := by
  induction ids generalizing names arguments store with
  | nil =>
      cases List.length_eq_zero_iff.mp sameLength
      cases unfolds
      rfl
  | cons id ids induction =>
      cases names with
      | nil => cases sameLength
      | cons name names =>
          obtain ⟨expression, unfoldsFirst, others, unfoldsRest, rfl⟩ :=
            mapEntries?_cons_eq_some_iff.mp unfolds
          have growsLater :=
            grows.trans (expression.addsTo_place store).grows
          exact run_mapM_cons_eq_some_iff.mpr
            ⟨_, _, clones unfoldsFirst grows, _,
              induction (Nat.succ.inj sameLength) unfoldsRest growsLater, rfl⟩

theorem run_cloneList_eq (built : base.Forall Object.IsBuilt)
    (clones : ∀ {id : NodeId} {expression : Expression} {store : Store},
      base.unfoldNode? length id = some expression → base.GrowsTo store →
        StateT.run (cloneNode length id) store = some (expression.place.run store))
    {id : ListId} {arguments : Arguments}
    (unfolds : base.expandList? (base.unfoldNode? length) id = some arguments)
    {store : Store} (grows : base.GrowsTo store) :
    StateT.run (cloneList (cloneNode length) id) store =
      some ((Arguments.place arguments).run store) := by
  obtain ⟨named, found, entries⟩ := expandList?_eq_some_iff.mp unfolds
  have namedBuilt : named.IsBuilt :=
    built (object?_list_eq_some_iff.mpr found)
  have sameNames := names_mapEntries? entries
  rw [namedBuilt.names_toList] at sameNames
  have cloned := run_mapM_cloneNode_eq clones namedBuilt.length_names entries
    grows
  refine run_cloneList_eq_some_iff.mpr
    ⟨named, grows.lists found, _, _, cloned, ?_⟩
  -- the placed entries have the names of the list that is cloned
  have placedNames := Expression.names_placeEntries arguments store
  have rejoined : named.names.toList.zip
      (((Expression.placeEntries arguments).run store).1.map Prod.snd) =
        ((Expression.placeEntries arguments).run store).1 := by
    rw [sameNames, ← placedNames]
    exact (List.zip_of_prod rfl rfl).symm
  rw [namedBuilt.withChildren_eq_ofList ?_, rejoined]
  · rfl
  · have placedLength := congrArg List.length placedNames
    have namesLength := congrArg List.length sameNames
    simp only [List.length_map] at placedLength namesLength ⊢
    rw [placedLength, ← namesLength, namedBuilt.length_names]
    simp

theorem run_cloneNode_eq (built : base.Forall Object.IsBuilt) {id : NodeId}
    {expression : Expression}
    (unfolds : base.unfoldNode? length id = some expression) {store : Store}
    (grows : base.GrowsTo store) :
    StateT.run (cloneNode length id) store = some (expression.place.run store) := by
  induction length generalizing id expression store with
  | zero => cases unfolds
  | succ length induction =>
      obtain ⟨node, found, expanded⟩ :=
        unfoldNode?_succ_eq_some_iff.mp unfolds
      cases node with
      | constant | call | parameter | temporary =>
          cases expanded
          exact run_cloneNode_of_children_eq_nil (grows.nodes found) rfl
      | directCall type tag list =>
          obtain ⟨arguments, entries, rfl⟩ :=
            Node.expand?_directCall_eq_some_iff.mp expanded
          exact (run_cloneNode_directCall_eq_some_iff (grows.nodes found)).mpr
            ⟨_, _, run_cloneList_eq built (fun unfolds grows =>
              induction unfolds grows) entries grows, rfl⟩

end Placing

/-- To clone an object that has a tree is to place the tree. -/
theorem clone?_eq {store : Store} (built : store.Forall Object.IsBuilt)
    {source : Handle} {tree : Tree}
    (unfolds : store.unfolding? source = some tree)
    (ordered : tree.form.IsOrdered) :
    store.clone? source = some (tree.place.run store) := by
  cases source with
  | node id =>
      obtain ⟨root, found, rfl⟩ := Option.map_eq_some_iff.mp unfolds
      exact clone?_node_eq_some_iff.mpr
        ⟨_, run_cloneNode_eq built found (.refl store), rfl⟩
  | list id =>
      obtain ⟨entries, found, rfl⟩ := Option.map_eq_some_iff.mp unfolds
      have cloned := run_cloneList_eq built
        (fun unfolds grows => run_cloneNode_eq built unfolds grows) found
        (.refl store)
      exact clone?_list_eq_some_iff.mpr ⟨_, cloned, rfl⟩
  | note | block | table =>
      obtain ⟨_, -, rfl⟩ := Option.map_eq_some_iff.mp unfolds
      cases ordered

section Invariant

variable {store changed : Store}

theorem consistent_of_isBuilt (built : store.Forall Object.IsBuilt) :
    store.Consistent where
  lists found := (built (object?_list_eq_some_iff.mpr found)).toConsistent
  tables found := (built (object?_table_eq_some_iff.mpr found)).toConsistent

theorem suits_isBuilt : Suits Object.IsBuilt fun _ => True where
  node _ _ := trivial
  list entries := Named.isBuilt_ofList entries
  note _ := trivial
  block _ := trivial
  table entries := Named.isBuilt_ofList entries

theorem has_of_clone? {source copy : Handle}
    (cloned : store.clone? source = some (copy, changed)) :
    store.Has source := by
  cases source with
  | node id =>
      obtain ⟨_, cloned, -⟩ := clone?_node_eq_some_iff.mp cloned
      cases room : store.nodes.size with
      | zero =>
          rw [room] at cloned
          cases cloned
      | succ length =>
          rw [room] at cloned
          obtain ⟨node, found⟩ := exists_node_of_run_cloneNode cloned
          exact has_of_object?_eq_some (object?_node_eq_some_iff.mpr found)
  | list id =>
      obtain ⟨_, cloned, -⟩ := clone?_list_eq_some_iff.mp cloned
      obtain ⟨named, found, -⟩ := run_cloneList_eq_some_iff.mp cloned
      exact has_of_object?_eq_some (object?_list_eq_some_iff.mpr found)
  | note | block | table => cases cloned

/-- What can be cloned has a tree, and the clone is the tree placed. -/
theorem exists_place_of_clone? (closed : store.Closed)
    (built : store.Forall Object.IsBuilt) {source copy : Handle}
    (cloned : store.clone? source = some (copy, changed)) :
    ∃ tree, store.unfolding? source = some tree ∧
      tree.place.run store = (copy, changed) := by
  have consistent := consistent_of_isBuilt built
  have acyclic : store.AcyclicFrom source := by
    by_contra cyclic
    rw [clone?_eq_none consistent cyclic] at cloned
    cases cloned
  obtain ⟨tree, unfolds⟩ := (exists_unfolding?_iff consistent closed).mpr
    ⟨has_of_clone? cloned, acyclic⟩
  have ordered : tree.form.IsOrdered := by
    rw [form_of_unfolding?_eq_some unfolds]
    cases source with
    | node | list => trivial
    | note | block | table => cases cloned
  rw [clone?_eq built unfolds ordered, Option.some.injEq] at cloned
  exact ⟨tree, unfolds, cloned⟩

theorem withstands_isBuilt : Withstands Object.IsBuilt where
  node _ _ := trivial
  list edit built := Named.IsBuilt.edit built edit
  note _ := trivial
  block _ := trivial
  table edit built := Named.IsBuilt.edit built edit

theorem Creation.forall_isBuilt {handle : Handle} (closed : store.Closed)
    (creation : store.Creation handle changed)
    (built : store.Forall Object.IsBuilt) : changed.Forall Object.IsBuilt := by
  cases creation with
  | placed tree => exact forall_place suits_isBuilt (fun _ _ => trivial) built
  | cloned cloned =>
      obtain ⟨tree, -, placed⟩ := exists_place_of_clone? closed built cloned
      have builtLater : (tree.place.run store).2.Forall Object.IsBuilt :=
        forall_place suits_isBuilt (fun _ _ => trivial) built
      rwa [placed] at builtLater
  | directCall => exact (adds_newNode _ _).updates.forall built trivial
  | note => exact (adds_newNote _ _).updates.forall built trivial

theorem Change.forall_isBuilt {operation : Operation} {handle : Handle}
    (closed : store.Closed) (change : store.Change operation handle changed)
    (built : store.Forall Object.IsBuilt) : changed.Forall Object.IsBuilt := by
  cases change with
  | creation _ creation => exact creation.forall_isBuilt closed built
  | mutation _ mutation => exact mutation.forall withstands_isBuilt built

/-- In every store that can be reached, the maps of containers are made by
their names. -/
theorem isBuilt_run (operations : List Operation) :
    (run {} operations).Forall Object.IsBuilt := by
  -- that an object can be cloned says that it has a tree if the store is closed
  let property (store : Store) : Prop :=
    store.Closed ∧ store.Forall Object.IsBuilt
  have holds : property (run {} operations) := by
    apply run_preserves
    · rintro _ _ _ _ ⟨closed, built⟩ change
      exact ⟨change.closed closed, change.forall_isBuilt closed built⟩
    · exact ⟨closed_empty, forall_empty _⟩
  exact holds.2

end Invariant

end Store

end MaterialGraph
