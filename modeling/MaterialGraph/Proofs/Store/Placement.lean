import MaterialGraph.Proofs.Expression.Parts
import MaterialGraph.Proofs.Store.Ownership
import MaterialGraph.Store.Place

/-!
# Placing a tree

To place a tree is to add objects and to leave those that exist alone.  The
object made unfolds to the tree, provided that the names in each container of
the tree are distinct.
-/

namespace MaterialGraph

namespace Store

/-- The three views of every container that names its children are in step. -/
structure Consistent {Types Values : Type} (store : Store Types Values) :
    Prop where
  lists : ∀ {id : ListId} {list : Named NodeId},
    store.list? id = some list → list.Consistent
  tables : ∀ {id : TableId} {table : Named BlockId},
    store.table? id = some table → table.Consistent

theorem consistent_empty : Consistent ({} : Store) where
  lists found := by simp [list?] at found
  tables found := by simp [table?] at found

theorem Consistent.object {store : Store} (consistent : store.Consistent)
    {handle : Handle} {object : Object}
    (found : store.object? handle = some object) : object.Consistent := by
  cases handle with
  | list id =>
      obtain ⟨list, there, rfl⟩ := Option.map_eq_some_iff.mp found
      exact consistent.lists there
  | table id =>
      obtain ⟨table, there, rfl⟩ := Option.map_eq_some_iff.mp found
      exact consistent.tables there
  | node | note | block =>
      obtain ⟨_, -, rfl⟩ := Option.map_eq_some_iff.mp found
      trivial

/-- If the object written is in step, containers stay in step. -/
theorem Updates.consistent {store changed : Store} {handle : Handle}
    {object : Object} (updates : store.Updates handle object changed)
    (inStep : object.Consistent) (consistent : store.Consistent) :
    changed.Consistent := by
  have objects : ∀ {other found}, changed.object? other = some found →
      found.Consistent := by
    intro other found there
    by_cases same : other = handle
    · subst same
      rw [updates.object?_self, Option.some.injEq] at there
      exact there ▸ inStep
    · rw [updates.object?_other same] at there
      exact consistent.object there
  exact
    { lists := fun found => objects (object?_list_eq_some_iff.mpr found)
      tables := fun found => objects (object?_table_eq_some_iff.mpr found) }

/-- New objects have been added, each with parts that were there before it and
with its views in step. -/
inductive AddsTo (old : Store) : Store → Prop
  | refl : AddsTo old old
  | add {middle new : Store} {handle : Handle} {object : Object}
      (earlier : AddsTo old middle) (adds : middle.Adds handle object new)
      (inStep : middle.Consistent → object.Consistent)
      (known : ∀ child ∈ object.children, middle.Has child) : AddsTo old new

namespace AddsTo

variable {old middle new : Store}

theorem trans (first : old.AddsTo middle) (second : middle.AddsTo new) :
    old.AddsTo new := by
  induction second with
  | refl => exact first
  | add _ adds inStep known induction => exact .add induction adds inStep known

theorem grows (addsTo : old.AddsTo new) : old.GrowsTo new := by
  induction addsTo with
  | refl => exact .refl old
  | add _ adds _ _ induction => exact induction.trans adds.growsTo

theorem consistent (addsTo : old.AddsTo new) (consistent : old.Consistent) :
    new.Consistent := by
  induction addsTo with
  | refl => exact consistent
  | add _ adds inStep _ induction =>
      exact adds.updates.consistent (inStep induction) induction

theorem closed (addsTo : old.AddsTo new) (closed : old.Closed) :
    new.Closed := by
  induction addsTo with
  | refl => exact closed
  | add _ adds _ known induction => exact adds.closed induction known

theorem acyclic (addsTo : old.AddsTo new) (closed : old.Closed)
    (acyclic : old.Acyclic) : new.Acyclic := by
  induction addsTo with
  | refl => exact acyclic
  | add earlier adds _ known induction =>
      exact adds.acyclic (earlier.closed closed) induction known

end AddsTo

section New

variable (store : Store)

theorem addsTo_newNode {node : Node}
    (known : ∀ child ∈ (Object.node node).children, store.Has child) :
    store.AddsTo ((newNode node).run store).2 :=
  .add .refl (adds_newNode store node) (fun _ => trivial) known

theorem addsTo_newDirectCall (type : ValueType) (tag : Tag) {list : ListId}
    (known : store.Has (.list list)) :
    store.AddsTo ((newNode (.directCall type tag list)).run store).2 :=
  addsTo_newNode store (List.forall_mem_singleton.mpr known)

theorem addsTo_newList {list : Named NodeId} (inStep : list.Consistent)
    (known : ∀ child ∈ (Object.list list : Object).children, store.Has child) :
    store.AddsTo ((newList list).run store).2 :=
  .add .refl (adds_newList store list) (fun _ => inStep) known

theorem addsTo_newNote {note : Note} (known : store.Has (.list note.arguments)) :
    store.AddsTo ((newNote note).run store).2 :=
  .add .refl (adds_newNote store note) (fun _ => trivial)
    (List.forall_mem_singleton.mpr known)

theorem addsTo_newBlock {block : Array NoteId}
    (known : ∀ child ∈ (Object.block block : Object).children, store.Has child) :
    store.AddsTo ((newBlock block).run store).2 :=
  .add .refl (adds_newBlock store block) (fun _ => trivial) known

theorem addsTo_newTable {table : Named BlockId} (inStep : table.Consistent)
    (known : ∀ child ∈ (Object.table table : Object).children, store.Has child) :
    store.AddsTo ((newTable table).run store).2 :=
  .add .refl (adds_newTable store table) (fun _ => inStep) known

/-- The parts of a new container are among its entries. -/
theorem known_ofList {α : Type} {store : Store} {wrap : α → Handle}
    {entries : List (String × α)}
    (known : ∀ entry ∈ entries, store.Has (wrap entry.2)) :
    ∀ child ∈ (Named.ofList entries).children.toList.map wrap,
      store.Has child := by
  intro child held
  obtain ⟨inner, member, rfl⟩ := List.mem_map.mp held
  obtain ⟨entry, entryMember, rfl⟩ :=
    List.mem_map.mp (Named.mem_of_mem_ofList (Array.mem_def.mpr member))
  exact known entry entryMember

end New

end Store

open Store

namespace Expression

theorem has_place (expression : Expression) (store : Store) :
    (expression.place.run store).2.Has
      (.node (expression.place.run store).1) := by
  cases expression <;> exact (adds_newNode _ _).updates.has_self

mutual

theorem addsTo_place (expression : Expression) (store : Store) :
    store.AddsTo (expression.place.run store).2 := by
  cases expression with
  | constant | call | parameter | temporary =>
      exact addsTo_newNode store (List.forall_mem_nil _)
  | directCall type tag arguments =>
      have entries := addsTo_placeEntries arguments store
      have list := addsTo_newList ((placeEntries arguments).run store).2
        (Named.consistent_ofList ((placeEntries arguments).run store).1)
        (known_ofList (has_placeEntries arguments store))
      refine (entries.trans list).trans (addsTo_newDirectCall _ type tag ?_)
      exact (adds_newList _ _).updates.has_self

theorem addsTo_placeEntries (arguments : Arguments) (store : Store) :
    store.AddsTo ((placeEntries arguments).run store).2 := by
  cases arguments with
  | nil => exact .refl
  | cons entry rest =>
      obtain ⟨name, expression⟩ := entry
      have child := addsTo_place expression store
      exact child.trans (addsTo_placeEntries rest _)

theorem has_placeEntries (arguments : Arguments) (store : Store) :
    ∀ entry ∈ ((placeEntries arguments).run store).1,
      ((placeEntries arguments).run store).2.Has (.node entry.2) := by
  cases arguments with
  | nil => exact List.forall_mem_nil _
  | cons entry rest =>
      obtain ⟨name, expression⟩ := entry
      have others := addsTo_placeEntries rest (expression.place.run store).2
      exact List.forall_mem_cons.mpr
        ⟨others.grows.has (has_place expression store),
          has_placeEntries rest (expression.place.run store).2⟩

end

end Expression

theorem Arguments.has_place (arguments : Arguments) (store : Store) :
    ((Arguments.place arguments).run store).2.Has
      (.list ((Arguments.place arguments).run store).1) :=
  (adds_newList _ _).updates.has_self

theorem Arguments.addsTo_place (arguments : Arguments) (store : Store) :
    store.AddsTo ((Arguments.place arguments).run store).2 := by
  have entries := Expression.addsTo_placeEntries arguments store
  exact entries.trans (addsTo_newList _ (Named.consistent_ofList _)
    (known_ofList (Expression.has_placeEntries arguments store)))

theorem AnnotationCall.has_place (call : AnnotationCall) (store : Store) :
    (call.place.run store).2.Has (.note (call.place.run store).1) :=
  (adds_newNote _ _).updates.has_self

theorem AnnotationCall.addsTo_place (call : AnnotationCall) (store : Store) :
    store.AddsTo (call.place.run store).2 := by
  have arguments := Arguments.addsTo_place call.arguments store
  exact arguments.trans
    (addsTo_newNote _ (Arguments.has_place call.arguments store))

theorem AnnotationBlock.addsTo_placeCalls (calls : AnnotationBlock)
    (store : Store) :
    store.AddsTo ((placeCalls calls).run store).2 := by
  induction calls generalizing store with
  | nil => exact .refl
  | cons call rest induction =>
      have note := call.addsTo_place store
      exact note.trans (induction _)

theorem AnnotationBlock.has_placeCalls (calls : AnnotationBlock)
    (store : Store) :
    ∀ note ∈ ((placeCalls calls).run store).1,
      ((placeCalls calls).run store).2.Has (.note note) := by
  induction calls generalizing store with
  | nil => exact List.forall_mem_nil _
  | cons call rest induction =>
      have others := addsTo_placeCalls rest (call.place.run store).2
      exact List.forall_mem_cons.mpr
        ⟨others.grows.has (call.has_place store), induction _⟩

theorem AnnotationBlock.has_place (block : AnnotationBlock) (store : Store) :
    ((AnnotationBlock.place block).run store).2.Has
      (.block ((AnnotationBlock.place block).run store).1) :=
  (adds_newBlock _ _).updates.has_self

theorem AnnotationBlock.addsTo_place (block : AnnotationBlock) (store : Store) :
    store.AddsTo ((AnnotationBlock.place block).run store).2 := by
  have notes := AnnotationBlock.addsTo_placeCalls block store
  refine notes.trans (addsTo_newBlock _ fun child held => ?_)
  obtain ⟨note, member, rfl⟩ := List.mem_map.mp held
  exact AnnotationBlock.has_placeCalls block store note member

theorem AnnotationTable.addsTo_placeEntries (table : AnnotationTable)
    (store : Store) :
    store.AddsTo ((placeEntries table).run store).2 := by
  induction table generalizing store with
  | nil => exact .refl
  | cons entry rest induction =>
      have block := AnnotationBlock.addsTo_place entry.2 store
      exact block.trans (induction _)

theorem AnnotationTable.has_placeEntries (table : AnnotationTable)
    (store : Store) :
    ∀ entry ∈ ((placeEntries table).run store).1,
      ((placeEntries table).run store).2.Has (.block entry.2) := by
  induction table generalizing store with
  | nil => exact List.forall_mem_nil _
  | cons entry rest induction =>
      have others := addsTo_placeEntries rest
        ((AnnotationBlock.place entry.2).run store).2
      exact List.forall_mem_cons.mpr
        ⟨others.grows.has (AnnotationBlock.has_place entry.2 store),
          induction _⟩

theorem AnnotationTable.addsTo_place (table : AnnotationTable) (store : Store) :
    store.AddsTo ((AnnotationTable.place table).run store).2 := by
  have entries := AnnotationTable.addsTo_placeEntries table store
  exact entries.trans (addsTo_newTable _ (Named.consistent_ofList _)
    (known_ofList (AnnotationTable.has_placeEntries table store)))

theorem Tree.addsTo_place (tree : Tree) (store : Store) :
    store.AddsTo (tree.place.run store).2 := by
  cases tree with
  | expression root => exact root.addsTo_place store
  | arguments entries => exact Arguments.addsTo_place entries store
  | annotationCall call => exact call.addsTo_place store
  | annotationBlock calls => exact AnnotationBlock.addsTo_place calls store
  | annotationTable entries => exact AnnotationTable.addsTo_place entries store

theorem names_mapEntries? {α β : Type} {change : α → Option β}
    {entries : List (String × α)} {changed : List (String × β)}
    (result : mapEntries? change entries = some changed) :
    entries.map Prod.fst = changed.map Prod.fst := by
  induction entries generalizing changed with
  | nil =>
      cases result
      rfl
  | cons entry rest induction =>
      obtain ⟨found, -, others, foundOthers, rfl⟩ :=
        mapEntries?_cons_eq_some_iff.mp result
      rw [List.map_cons, List.map_cons, induction foundOthers]

namespace Store

/-- A new list unfolds to its entries, if they have distinct names. -/
theorem expandList?_newList {store : Store} {length : Nat}
    {entries : List (String × NodeId)} {arguments : Arguments}
    (expanded : mapEntries? (store.unfoldNode? length) entries = some arguments)
    (distinct : (arguments.map Prod.fst).Nodup) :
    ((newList (.ofList entries)).run store).2.expandList?
      (((newList (.ofList entries)).run store).2.unfoldNode? length)
      ((newList (.ofList entries)).run store).1 = some arguments := by
  rw [← names_mapEntries? expanded] at distinct
  have grows := (adds_newList store (.ofList entries)).growsTo
  refine expandList?_eq_some_iff.mpr
    ⟨.ofList entries, Array.getElem?_push_size, ?_⟩
  rw [Named.toList_ofList distinct]
  exact mapEntries?_extendedBy (grows.unfoldNode? (Nat.le_refl length)) expanded

/-- A new direct call unfolds as its list does. -/
theorem unfoldNode?_newDirectCall {store : Store} {length : Nat} {list : ListId}
    {arguments : Arguments} (type : ValueType) (tag : Tag)
    (expanded : store.expandList? (store.unfoldNode? length) list =
      some arguments) :
    ((newNode (.directCall type tag list)).run store).2.unfoldNode? (length + 1)
      ((newNode (.directCall type tag list)).run store).1 =
        some (.directCall type tag arguments) := by
  have grows := (adds_newNode store (.directCall type tag list)).growsTo
  refine unfoldNode?_succ_eq_some_iff.mpr ⟨_, Array.getElem?_push_size, ?_⟩
  refine Node.expand?_directCall_eq_some_iff.mpr ⟨arguments, ?_, rfl⟩
  exact grows.expandList? (grows.unfoldNode? (Nat.le_refl length)) expanded

end Store

namespace Expression

mutual

theorem unfoldNode?_place (expression : Expression) (calls : Nat)
    (store : Store)
    (distinct : ∀ part ∈ expression.parts calls, part.IsDistinct) :
    ∃ length, (expression.place.run store).2.unfoldNode? length
      (expression.place.run store).1 = some expression := by
  cases expression with
  | constant | call | parameter | temporary =>
      exact ⟨1, unfoldNode?_succ_eq_some_iff.mpr
        ⟨_, Array.getElem?_push_size, rfl⟩⟩
  | directCall type tag arguments =>
      simp only [parts, List.forall_mem_cons] at distinct
      obtain ⟨length, entries⟩ :=
        mapEntries?_placeEntries arguments _ store distinct.2.2.2.2
      have list := expandList?_newList entries distinct.2.2.2.1
      exact ⟨length + 1, unfoldNode?_newDirectCall type tag list⟩

theorem mapEntries?_placeEntries (arguments : Arguments) (calls : Nat)
    (store : Store)
    (distinct : ∀ part ∈ entryParts calls arguments, part.IsDistinct) :
    ∃ length,
      mapEntries? (((placeEntries arguments).run store).2.unfoldNode? length)
        ((placeEntries arguments).run store).1 = some arguments := by
  cases arguments with
  | nil => exact ⟨0, rfl⟩
  | cons entry rest =>
      obtain ⟨name, expression⟩ := entry
      simp only [entryParts, List.forall_mem_cons,
        List.forall_mem_append] at distinct
      obtain ⟨length, child⟩ :=
        unfoldNode?_place expression calls store distinct.2.1
      obtain ⟨length', others⟩ :=
        mapEntries?_placeEntries rest calls (expression.place.run store).2
          distinct.2.2
      have grows :=
        (addsTo_placeEntries rest (expression.place.run store).2).grows
      refine ⟨max length length', mapEntries?_cons_eq_some_iff.mpr
        ⟨expression, ?_, rest, ?_, rfl⟩⟩
      · exact grows.unfoldNode? (Nat.le_max_left length length') child
      · exact mapEntries?_extendedBy
          (unfoldNode?_extendedBy (Nat.le_max_right length length')) others

end

end Expression

theorem Arguments.expandList?_place (arguments : Arguments) (store : Store)
    (distinct : ∀ part ∈ Arguments.parts arguments, part.IsDistinct) :
    ∃ length, ((Arguments.place arguments).run store).2.expandList?
      (((Arguments.place arguments).run store).2.unfoldNode? length)
      ((Arguments.place arguments).run store).1 = some arguments := by
  simp only [Arguments.parts, List.forall_mem_cons] at distinct
  obtain ⟨length, entries⟩ :=
    Expression.mapEntries?_placeEntries arguments 0 store distinct.2
  exact ⟨length, expandList?_newList entries distinct.1⟩

theorem AnnotationCall.expandNote?_place (call : AnnotationCall) (store : Store)
    (distinct : ∀ part ∈ call.parts, part.IsDistinct) :
    ∃ length, (call.place.run store).2.expandNote?
      ((call.place.run store).2.unfoldNode? length) (call.place.run store).1 =
        some call := by
  simp only [AnnotationCall.parts, List.forall_mem_cons] at distinct
  obtain ⟨length, arguments⟩ :=
    Arguments.expandList?_place call.arguments store distinct.2
  have grows := (adds_newNote ((Arguments.place call.arguments).run store).2
    ⟨call.name, ((Arguments.place call.arguments).run store).1⟩).growsTo
  refine ⟨length, expandNote?_eq_some_iff.mpr
    ⟨_, Array.getElem?_push_size, call.arguments, ?_, rfl⟩⟩
  exact grows.expandList? (grows.unfoldNode? (Nat.le_refl length)) arguments

theorem AnnotationBlock.mapM_placeCalls (calls : AnnotationBlock)
    (store : Store)
    (distinct : ∀ part ∈ calls.flatMap AnnotationCall.parts, part.IsDistinct) :
    ∃ length, ((placeCalls calls).run store).1.mapM
      (((placeCalls calls).run store).2.expandNote?
        (((placeCalls calls).run store).2.unfoldNode? length)) =
          some calls := by
  induction calls generalizing store with
  | nil => exact ⟨0, rfl⟩
  | cons call rest induction =>
      simp only [List.flatMap_cons, List.forall_mem_append] at distinct
      obtain ⟨length, note⟩ := call.expandNote?_place store distinct.1
      obtain ⟨length', others⟩ := induction (call.place.run store).2 distinct.2
      -- the rest is placed later, so that the room for both has to be found
      -- in the last store
      have grows := (addsTo_placeCalls rest (call.place.run store).2).grows
      refine ⟨max length length', mapM_cons_eq_some_iff.mpr
        ⟨call, ?_, rest, ?_, rfl⟩⟩
      · exact grows.expandNote?
          (grows.unfoldNode? (Nat.le_max_left length length')) note
      · exact mapM_extendedBy ((GrowsTo.refl _).expandNote?
          (unfoldNode?_extendedBy (Nat.le_max_right length length'))) others

theorem AnnotationBlock.expandBlock?_place (block : AnnotationBlock)
    (store : Store)
    (distinct : ∀ part ∈ AnnotationBlock.parts block, part.IsDistinct) :
    ∃ length, ((AnnotationBlock.place block).run store).2.expandBlock?
      (((AnnotationBlock.place block).run store).2.unfoldNode? length)
      ((AnnotationBlock.place block).run store).1 = some block := by
  simp only [AnnotationBlock.parts, List.forall_mem_cons] at distinct
  obtain ⟨length, notes⟩ :=
    AnnotationBlock.mapM_placeCalls block store distinct.2
  have grows := (adds_newBlock ((placeCalls block).run store).2
    ((placeCalls block).run store).1.toArray).growsTo
  refine ⟨length, expandBlock?_eq_some_iff.mpr
    ⟨_, Array.getElem?_push_size, ?_⟩⟩
  exact mapM_extendedBy
    (grows.expandNote? (grows.unfoldNode? (Nat.le_refl length))) notes

theorem AnnotationTable.mapEntries?_placeEntries (table : AnnotationTable)
    (store : Store)
    (distinct : ∀ part ∈ table.flatMap fun entry =>
      Part.name entry.1 :: AnnotationBlock.parts entry.2, part.IsDistinct) :
    ∃ length, mapEntries?
      (((placeEntries table).run store).2.expandBlock?
        (((placeEntries table).run store).2.unfoldNode? length))
      ((placeEntries table).run store).1 = some table := by
  induction table generalizing store with
  | nil => exact ⟨0, rfl⟩
  | cons entry rest induction =>
      obtain ⟨name, block⟩ := entry
      simp only [List.flatMap_cons, List.cons_append, List.forall_mem_cons,
        List.forall_mem_append] at distinct
      obtain ⟨length, child⟩ :=
        AnnotationBlock.expandBlock?_place block store distinct.2.1
      obtain ⟨length', others⟩ :=
        induction ((AnnotationBlock.place block).run store).2 distinct.2.2
      have grows := (addsTo_placeEntries rest
        ((AnnotationBlock.place block).run store).2).grows
      refine ⟨max length length', mapEntries?_cons_eq_some_iff.mpr
        ⟨block, ?_, rest, ?_, rfl⟩⟩
      · exact grows.expandBlock?
          (grows.unfoldNode? (Nat.le_max_left length length')) child
      · exact mapEntries?_extendedBy ((GrowsTo.refl _).expandBlock?
          (unfoldNode?_extendedBy (Nat.le_max_right length length'))) others

theorem AnnotationTable.expandTable?_place (table : AnnotationTable)
    (store : Store)
    (distinct : ∀ part ∈ AnnotationTable.parts table, part.IsDistinct) :
    ∃ length, ((AnnotationTable.place table).run store).2.expandTable?
      (((AnnotationTable.place table).run store).2.unfoldNode? length)
      ((AnnotationTable.place table).run store).1 = some table := by
  simp only [AnnotationTable.parts, List.forall_mem_cons] at distinct
  obtain ⟨length, blocks⟩ :=
    AnnotationTable.mapEntries?_placeEntries table store distinct.2
  have distinctNames := distinct.1
  rw [Part.IsDistinct, ← names_mapEntries? blocks] at distinctNames
  have grows := (adds_newTable ((placeEntries table).run store).2
    (.ofList ((placeEntries table).run store).1)).growsTo
  refine ⟨length, expandTable?_eq_some_iff.mpr
    ⟨.ofList ((placeEntries table).run store).1, Array.getElem?_push_size, ?_⟩⟩
  rw [Named.toList_ofList distinctNames]
  exact mapEntries?_extendedBy
    (grows.expandBlock? (grows.unfoldNode? (Nat.le_refl length))) blocks

/-- A placed tree can be found again. -/
theorem Tree.unfolding?_place (tree : Tree) (store : Store)
    (distinct : tree.IsDistinct) :
    (tree.place.run store).2.unfolding? (tree.place.run store).1 =
      some tree := by
  rw [unfolding?_eq_some_iff]
  cases tree with
  | expression root =>
      obtain ⟨length, found⟩ := root.unfoldNode?_place 0 store distinct
      exact ⟨length, congrArg (Option.map Tree.expression) found⟩
  | arguments entries =>
      obtain ⟨length, found⟩ :=
        Arguments.expandList?_place entries store distinct
      exact ⟨length, congrArg (Option.map Tree.arguments) found⟩
  | annotationCall call =>
      obtain ⟨length, found⟩ := call.expandNote?_place store distinct
      exact ⟨length, congrArg (Option.map Tree.annotationCall) found⟩
  | annotationBlock calls =>
      obtain ⟨length, found⟩ :=
        AnnotationBlock.expandBlock?_place calls store distinct
      exact ⟨length, congrArg (Option.map Tree.annotationBlock) found⟩
  | annotationTable entries =>
      obtain ⟨length, found⟩ :=
        AnnotationTable.expandTable?_place entries store distinct
      exact ⟨length, congrArg (Option.map Tree.annotationTable) found⟩

end MaterialGraph
