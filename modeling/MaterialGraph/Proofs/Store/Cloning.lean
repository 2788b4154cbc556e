import MaterialGraph.Proofs.Expression.Order
import MaterialGraph.Proofs.Store.Forest
import MaterialGraph.Proofs.Store.Placement
import MaterialGraph.Store.Clone
import Mathlib.Data.List.Forall2

/-!
# Cloning makes a tree of new objects

A clone has the tree of what is cloned, and everything below it is new and
shared by nothing, however often the original holds one of its parts.  Every
expression and every list that has a tree can be cloned.
-/

namespace MaterialGraph

namespace Store

section Inversion

variable {clone : NodeId → StateT Store Option NodeId} {store extended : Store}

theorem run_mapM_cons_eq_some_iff {child : NodeId} {rest copies : List NodeId} :
    ((child :: rest).mapM clone).run store = some (copies, extended) ↔
      ∃ copy middle, (clone child).run store = some (copy, middle) ∧
        ∃ others, (rest.mapM clone).run middle = some (others, extended) ∧
          copy :: others = copies := by
  simp only [List.mapM_cons, StateT.run_bind, StateT.run_pure,
    Option.bind_eq_bind, Option.bind_eq_some_iff, Option.pure_def,
    Option.some.injEq, Prod.mk.injEq, Prod.exists]
  constructor
  · rintro ⟨copy, middle, cloned, others, _, later, rfl, rfl⟩
    exact ⟨copy, middle, cloned, others, later, rfl⟩
  · rintro ⟨copy, middle, cloned, others, later, rfl⟩
    exact ⟨copy, middle, cloned, others, _, later, rfl, rfl⟩

theorem run_make {α : Type} (construction : StateM Store α) :
    StateT.run (make construction) store = some (construction.run store) :=
  rfl

theorem run_cloneList_eq_some_iff {id copy : ListId} :
    (cloneList clone id).run store = some (copy, extended) ↔
      ∃ named, store.list? id = some named ∧
        ∃ copies middle,
          (named.children.toList.mapM clone).run store = some (copies, middle) ∧
          (newList (named.withChildren copies.toArray)).run middle =
            (copy, extended) := by
  cases found : store.list? id with
  | none => simp [cloneList, found]
  | some named =>
      simp [cloneList, Named.mapM_eq_map, found, run_make,
        Option.bind_eq_some_iff]

theorem run_cloneNode_directCall_eq_some_iff {length : Nat} {id copy : NodeId}
    {type : ValueType} {tag : Tag} {list : ListId}
    (found : store.node? id = some (.directCall type tag list)) :
    StateT.run (cloneNode (length + 1) id) store = some (copy, extended) ↔
      ∃ list' middle,
        StateT.run (cloneList (cloneNode length) list) store = some (list', middle) ∧
        (newNode (.directCall type tag list')).run middle =
          (copy, extended) := by
  simp [cloneNode, found, run_make, Option.bind_eq_some_iff]

/-- An expression without arguments is copied as it is. -/
theorem run_cloneNode_of_children_eq_nil {length : Nat} {id : NodeId}
    {node : Node} (found : store.node? id = some node)
    (leaf : (Object.node node).children = []) :
    StateT.run (cloneNode (length + 1) id) store =
      some ((newNode node).run store) := by
  cases node with
  | constant | call | parameter | temporary =>
      simp [cloneNode, found, run_make]
  | directCall => cases leaf

theorem clone?_node_eq_some_iff {id : NodeId} {copy : Handle} :
    store.clone? (.node id) = some (copy, extended) ↔
      ∃ copyId, StateT.run (cloneNode store.nodes.size id) store =
        some (copyId, extended) ∧ .node copyId = copy := by
  simp [clone?, clone]

theorem clone?_list_eq_some_iff {id : ListId} {copy : Handle} :
    store.clone? (.list id) = some (copy, extended) ↔
      ∃ copyId, StateT.run (cloneList (cloneNode store.nodes.size) id) store =
        some (copyId, extended) ∧ .list copyId = copy := by
  simp [clone?, clone]

theorem exists_node_of_run_cloneNode {length : Nat} {id copy : NodeId}
    (cloned : StateT.run (cloneNode (length + 1) id) store = some (copy, extended)) :
    ∃ node, store.node? id = some node := by
  cases found : store.node? id with
  | none => simp [cloneNode, found] at cloned
  | some node => exact ⟨node, rfl⟩

end Inversion

/-- Two expressions have the same tree. -/
def SameTree (store : Store) (length : Nat) (id copy : NodeId) : Prop :=
  ∃ expression, store.unfoldNode? length id = some expression ∧
    store.unfoldNode? length copy = some expression

theorem SameTree.growsTo {old new : Store} {length : Nat} {id copy : NodeId}
    (same : old.SameTree length id copy) (grows : old.GrowsTo new) :
    new.SameTree length id copy := by
  obtain ⟨expression, unfolds, unfoldsCopy⟩ := same
  have later := grows.unfoldNode? (Nat.le_refl length)
  exact ⟨expression, later unfolds, later unfoldsCopy⟩

/-- Expressions have been cloned one after the other. -/
structure Clones (old new : Store) (length : Nat) (ids copies : List NodeId) :
    Prop where
  adds : old.AddsTo new
  forest : IsForest old new (copies.map .node)
  sameTrees : List.Forall₂ (new.SameTree length) ids copies

theorem mapEntries?_zip_eq {change : NodeId → Option Expression}
    {ids copies : List NodeId}
    (same : List.Forall₂ (fun id copy => ∃ expression,
      change id = some expression ∧ change copy = some expression) ids copies)
    (names : List String) :
    ∃ arguments, mapEntries? change (names.zip ids) = some arguments ∧
      mapEntries? change (names.zip copies) = some arguments := by
  induction same generalizing names with
  | nil => exact ⟨[], by simp [mapEntries?]⟩
  | cons first _ induction =>
      obtain ⟨expression, found, foundCopy⟩ := first
      cases names with
      | nil => exact ⟨[], rfl, rfl⟩
      | cons name names =>
          obtain ⟨others, foundOthers, foundCopies⟩ := induction names
          exact ⟨(name, expression) :: others,
            mapEntries?_cons_eq_some_iff.mpr
              ⟨expression, found, others, foundOthers, rfl⟩,
            mapEntries?_cons_eq_some_iff.mpr
              ⟨expression, foundCopy, others, foundCopies, rfl⟩⟩

namespace Clones

variable {old middle new : Store} {length : Nat}

theorem nil (store : Store) (length : Nat) : Clones store store length [] [] :=
  ⟨.refl, .nil store, .nil⟩

theorem cons {id copy : NodeId} {ids copies : List NodeId}
    (first : Clones old middle length [id] [copy])
    (later : Clones middle new length ids copies) :
    Clones old new length (id :: ids) (copy :: copies) where
  adds := first.adds.trans later.adds
  forest := first.forest.cons later.forest first.adds.grows later.adds.grows
  sameTrees := by
    obtain ⟨same, -⟩ := List.forall₂_cons.mp first.sameTrees
    exact .cons (same.growsTo later.adds.grows) later.sameTrees

end Clones

/-- The copy of a list is a new tree with the same entries. -/
structure ClonesList (old new : Store) (length : Nat) (id copy : ListId) :
    Prop where
  adds : old.AddsTo new
  forest : IsForest old new [.list copy]
  sameEntries : ∃ arguments,
    new.expandList? (new.unfoldNode? length) id = some arguments ∧
      new.expandList? (new.unfoldNode? length) copy = some arguments

theorem IsForest.has {old new : Store} {roots : List Handle}
    (forest : IsForest old new roots) : ∀ root ∈ roots, new.Has root := by
  intro root member
  obtain ⟨index, taken⟩ := List.mem_iff_getElem?.mp member
  exact forest.known taken (.here root)

section Cloning

variable {length : Nat}

theorem Clones.ofMapM
    (ofCloneNode : ∀ {store extended : Store} {id copy : NodeId},
      StateT.run (cloneNode length id) store = some (copy, extended) →
        Clones store extended length [id] [copy])
    {store extended : Store} {ids copies : List NodeId}
    (cloned : StateT.run (ids.mapM (cloneNode length)) store =
      some (copies, extended)) :
    Clones store extended length ids copies := by
  induction ids generalizing store copies with
  | nil =>
      cases cloned
      exact .nil _ length
  | cons id ids induction =>
      obtain ⟨copy, middle, first, others, later, rfl⟩ :=
        run_mapM_cons_eq_some_iff.mp cloned
      exact (ofCloneNode first).cons (induction later)

theorem ClonesList.ofCloneList
    (ofCloneNode : ∀ {store extended : Store} {id copy : NodeId},
      StateT.run (cloneNode length id) store = some (copy, extended) →
        Clones store extended length [id] [copy])
    {store extended : Store} {id copy : ListId}
    (cloned : StateT.run (cloneList (cloneNode length) id) store =
      some (copy, extended)) :
    ClonesList store extended length id copy := by
  obtain ⟨named, found, copies, middle, clonedAll, made⟩ :=
    run_cloneList_eq_some_iff.mp cloned
  have clones := Clones.ofMapM ofCloneNode clonedAll
  have sameLength := clones.sameTrees.length_eq
  have adds := adds_newList middle (named.withChildren copies.toArray)
  rw [made] at adds
  have children :
      (Object.list (named.withChildren copies.toArray) : Object).children =
        copies.map .node := by
    simp [Object.children, Named.withChildren]
  have inStep : middle.Consistent →
      (named.withChildren copies.toArray).Consistent := by
    intro consistent
    refine (consistent.lists (clones.adds.grows.lists found)).withChildren ?_
    simpa using sameLength.symm
  refine ⟨.add clones.adds adds inStep (children ▸ clones.forest.has),
    .parent (children ▸ clones.forest) clones.adds.grows adds, ?_⟩
  -- the names are those of the original, the expressions their copies
  obtain ⟨arguments, entries, entriesCopy⟩ := mapEntries?_zip_eq
    (clones.sameTrees.imp fun _ _ same => same.growsTo adds.growsTo)
    named.names.toList
  refine ⟨arguments, ?_, ?_⟩
  · exact expandList?_eq_some_iff.mpr
      ⟨named, adds.growsTo.lists (clones.adds.grows.lists found), entries⟩
  · exact expandList?_eq_some_iff.mpr
      ⟨_, object?_list_eq_some_iff.mp adds.updates.object?_self, entriesCopy⟩

/-- An expression without arguments has the same tree as a copy of it. -/
theorem Clones.leaf {store : Store} {id : NodeId} {node : Node}
    (found : store.node? id = some node)
    (leaf : (Object.node node).children = []) :
    Clones store ((newNode node).run store).2 (length + 1) [id]
      [((newNode node).run store).1] := by
  have adds := adds_newNode store node
  have forest : IsForest store store (Object.node node).children :=
    leaf ▸ .nil store
  have foundCopy := object?_node_eq_some_iff.mp adds.updates.object?_self
  refine ⟨addsTo_newNode store (leaf ▸ List.forall_mem_nil _),
    forest.parent (.refl store) adds, .cons ?_ .nil⟩
  have expanded : ∃ expression,
      node.expand? (((newNode node).run store).2.expandList?
        (((newNode node).run store).2.unfoldNode? length)) =
          some expression := by
    cases node with
    | constant | call | parameter | temporary => exact ⟨_, rfl⟩
    | directCall => cases leaf
  obtain ⟨expression, expanded⟩ := expanded
  exact ⟨expression,
    unfoldNode?_succ_eq_some_iff.mpr
      ⟨node, adds.growsTo.nodes found, expanded⟩,
    unfoldNode?_succ_eq_some_iff.mpr ⟨node, foundCopy, expanded⟩⟩

/-- A direct call is cloned with its list. -/
theorem Clones.directCall {store middle : Store} {id : NodeId}
    {type : ValueType} {tag : Tag} {list list' : ListId}
    (found : store.node? id = some (.directCall type tag list))
    (clones : ClonesList store middle length list list') :
    Clones store ((newNode (.directCall type tag list')).run middle).2
      (length + 1) [id]
      [((newNode (.directCall type tag list')).run middle).1] := by
  have adds := adds_newNode middle (.directCall type tag list')
  have later := adds.growsTo.expandList?
    (adds.growsTo.unfoldNode? (Nat.le_refl length))
  have forest : IsForest store middle
      (Object.node (.directCall type tag list') : Object).children :=
    clones.forest
  obtain ⟨arguments, entries, entriesCopy⟩ := clones.sameEntries
  refine ⟨.add clones.adds adds (fun _ => trivial) forest.has,
    forest.parent clones.adds.grows adds,
    .cons ⟨.directCall type tag arguments, ?_, ?_⟩ .nil⟩
  · refine unfoldNode?_succ_eq_some_iff.mpr
      ⟨_, adds.growsTo.nodes (clones.adds.grows.nodes found), ?_⟩
    exact Node.expand?_directCall_eq_some_iff.mpr
      ⟨arguments, later entries, rfl⟩
  · refine unfoldNode?_succ_eq_some_iff.mpr
      ⟨_, object?_node_eq_some_iff.mp adds.updates.object?_self, ?_⟩
    exact Node.expand?_directCall_eq_some_iff.mpr
      ⟨arguments, later entriesCopy, rfl⟩

theorem Clones.ofCloneNode {store extended : Store} {id copy : NodeId}
    (cloned : StateT.run (cloneNode length id) store = some (copy, extended)) :
    Clones store extended length [id] [copy] := by
  induction length generalizing store extended id copy with
  | zero => cases cloned
  | succ length induction =>
      obtain ⟨node, found⟩ := exists_node_of_run_cloneNode cloned
      cases node with
      | constant | call | parameter | temporary =>
          rw [run_cloneNode_of_children_eq_nil found rfl] at cloned
          cases cloned
          exact .leaf found rfl
      | directCall type tag list =>
          obtain ⟨list', middle, clonedList, made⟩ :=
            (run_cloneNode_directCall_eq_some_iff found).mp cloned
          have call := Clones.directCall found
            (ClonesList.ofCloneList induction clonedList)
          rwa [made] at call

section Existence

variable {base : Store}

theorem exists_run_mapM {clone : NodeId → StateT Store Option NodeId}
    (grow : ∀ {store extended : Store} {id copy : NodeId},
      (clone id).run store = some (copy, extended) → store.GrowsTo extended)
    {ids : List NodeId}
    (succeed : ∀ id ∈ ids, ∀ {store : Store}, base.GrowsTo store →
      ∃ copy extended, (clone id).run store = some (copy, extended))
    {store : Store} (grows : base.GrowsTo store) :
    ∃ copies extended, (ids.mapM clone).run store = some (copies, extended) := by
  induction ids generalizing store with
  | nil => exact ⟨[], store, rfl⟩
  | cons id ids induction =>
      obtain ⟨first, rest⟩ := List.forall_mem_cons.mp succeed
      obtain ⟨copy, middle, cloned⟩ := first grows
      obtain ⟨copies, extended, later⟩ :=
        induction rest (grows.trans (grow cloned))
      exact ⟨copy :: copies, extended, run_mapM_cons_eq_some_iff.mpr
        ⟨copy, middle, cloned, copies, later, rfl⟩⟩

theorem exists_run_cloneList (consistent : base.Consistent) {id : ListId}
    (succeed : ∀ {id : NodeId}, (base.unfoldNode? length id).isSome →
      ∀ {store : Store}, base.GrowsTo store →
        ∃ copy extended,
          StateT.run (cloneNode length id) store = some (copy, extended))
    (unfolds : (base.expandList? (base.unfoldNode? length) id).isSome)
    {store : Store} (grows : base.GrowsTo store) :
    ∃ copy extended,
      StateT.run (cloneList (cloneNode length) id) store = some (copy, extended) := by
  obtain ⟨arguments, expanded⟩ := Option.isSome_iff_exists.mp unfolds
  obtain ⟨named, found, entries⟩ := expandList?_eq_some_iff.mp expanded
  have allUnfold := isSome_mapEntries?.mp (Option.isSome_of_eq_some entries)
  have childrenUnfold : ∀ id ∈ named.children.toList,
      (base.unfoldNode? length id).isSome := by
    intro id member
    rw [← (consistent.lists found).children_toList] at member
    obtain ⟨entry, entryMember, rfl⟩ := List.mem_map.mp member
    exact allUnfold entry entryMember
  obtain ⟨copies, middle, cloned⟩ := exists_run_mapM
    (fun cloned => (Clones.ofCloneNode cloned).adds.grows)
    (fun id member _ grows => succeed (childrenUnfold id member) grows) grows
  exact ⟨_, _, run_cloneList_eq_some_iff.mpr
    ⟨named, grows.lists found, copies, middle, cloned, rfl⟩⟩

/-- An expression that has a tree can be cloned. -/
theorem exists_run_cloneNode (consistent : base.Consistent) {id : NodeId}
    (unfolds : (base.unfoldNode? length id).isSome) {store : Store}
    (grows : base.GrowsTo store) :
    ∃ copy extended,
      StateT.run (cloneNode length id) store = some (copy, extended) := by
  induction length generalizing id store with
  | zero => cases unfolds
  | succ length induction =>
      obtain ⟨expression, unfolded⟩ := Option.isSome_iff_exists.mp unfolds
      obtain ⟨node, found, expanded⟩ :=
        unfoldNode?_succ_eq_some_iff.mp unfolded
      cases node with
      | constant | call | parameter | temporary =>
          exact ⟨_, _,
            run_cloneNode_of_children_eq_nil (grows.nodes found) rfl⟩
      | directCall type tag list =>
          obtain ⟨arguments, entries, -⟩ :=
            Node.expand?_directCall_eq_some_iff.mp expanded
          obtain ⟨list', middle, cloned⟩ := exists_run_cloneList consistent
            (fun unfolds _ grows => induction unfolds grows)
            (Option.isSome_of_eq_some entries) grows
          exact ⟨_, _,
            (run_cloneNode_directCall_eq_some_iff (grows.nodes found)).mpr
              ⟨list', middle, cloned, rfl⟩⟩

end Existence

end Cloning

/-- The copy is a new tree, and unfolds as the original does. -/
structure IsClone (old new : Store) (source copy : Handle) : Prop where
  adds : old.AddsTo new
  forest : IsForest old new [copy]
  sameTree : ∃ tree, new.unfolding? source = some tree ∧
    new.unfolding? copy = some tree

/-- Whatever is cloned, the result is a new tree. -/
theorem IsClone.ofClone? {store changed : Store} {source copy : Handle}
    (cloned : store.clone? source = some (copy, changed)) :
    IsClone store changed source copy := by
  cases source with
  | node id =>
      obtain ⟨copyId, result, rfl⟩ := clone?_node_eq_some_iff.mp cloned
      have clones := Clones.ofCloneNode result
      obtain ⟨⟨expression, unfolds, unfoldsCopy⟩, -⟩ :=
        List.forall₂_cons.mp clones.sameTrees
      refine ⟨clones.adds, clones.forest, .expression expression, ?_, ?_⟩
      · exact unfolding?_eq_some_iff.mpr
          ⟨_, Option.map_eq_some_iff.mpr ⟨expression, unfolds, rfl⟩⟩
      · exact unfolding?_eq_some_iff.mpr
          ⟨_, Option.map_eq_some_iff.mpr ⟨expression, unfoldsCopy, rfl⟩⟩
  | list id =>
      obtain ⟨copyId, result, rfl⟩ := clone?_list_eq_some_iff.mp cloned
      have clones := ClonesList.ofCloneList Clones.ofCloneNode result
      obtain ⟨arguments, entries, entriesCopy⟩ := clones.sameEntries
      refine ⟨clones.adds, clones.forest, .arguments arguments, ?_, ?_⟩
      · exact unfolding?_eq_some_iff.mpr
          ⟨_, Option.map_eq_some_iff.mpr ⟨arguments, entries, rfl⟩⟩
      · exact unfolding?_eq_some_iff.mpr
          ⟨_, Option.map_eq_some_iff.mpr ⟨arguments, entriesCopy, rfl⟩⟩
  | note | block | table => cases cloned

/-- Expressions and lists that have trees can be cloned. -/
theorem exists_clone? {store : Store} (consistent : store.Consistent)
    {source : Handle} {tree : Tree}
    (unfolds : store.unfolding? source = some tree)
    (ordered : tree.form.IsOrdered) :
    ∃ copy changed, store.clone? source = some (copy, changed) := by
  cases source with
  | node id =>
      obtain ⟨root, found, rfl⟩ := Option.map_eq_some_iff.mp unfolds
      obtain ⟨copy, changed, cloned⟩ := exists_run_cloneNode consistent
        (Option.isSome_of_eq_some found) (.refl store)
      exact ⟨.node copy, changed,
        clone?_node_eq_some_iff.mpr ⟨copy, cloned, rfl⟩⟩
  | list id =>
      obtain ⟨entries, found, rfl⟩ := Option.map_eq_some_iff.mp unfolds
      obtain ⟨copy, changed, cloned⟩ := exists_run_cloneList consistent
        (fun unfolds _ grows => exists_run_cloneNode consistent unfolds grows)
        (Option.isSome_of_eq_some found) (.refl store)
      exact ⟨.list copy, changed,
        clone?_list_eq_some_iff.mpr ⟨copy, cloned, rfl⟩⟩
  | note | block | table =>
      obtain ⟨_, -, rfl⟩ := Option.map_eq_some_iff.mp unfolds
      cases ordered

end Store

end MaterialGraph
