import MaterialGraph.Proofs.Named
import MaterialGraph.Proofs.Store.Unfolding
import Mathlib.Logic.Relation

/-!
# What objects hold

Seen from outside, a store maps handles to objects of five sorts, and an object
holds others: a direct call its list of arguments, a list its expressions.
Every construction and every change writes one object and leaves the others
alone.  It makes a cycle exactly if the written object comes to hold something
from which it can be reached.
-/

namespace MaterialGraph

/-- What a handle stands for. -/
inductive Object (Types : Type := ValueType) (Values : Type := Value)
  | node (node : Node Types Values)
  | list (list : Named NodeId)
  | note (note : Note)
  | block (notes : Array NoteId)
  | table (table : Named BlockId)

namespace Object

variable {Types Values : Type}

/-- The objects that an object holds, in order. -/
def children : Object Types Values → List Handle
  | node (.directCall _ _ arguments) => [.list arguments]
  | node _ => []
  | list named => named.children.toList.map .node
  | note held => [.list held.arguments]
  | block notes => notes.toList.map .note
  | table named => named.children.toList.map .block

/-- The views of a container that names its children are in step. -/
def Consistent : Object Types Values → Prop
  | list named => named.Consistent
  | table named => named.Consistent
  | _ => True

end Object

namespace Store

section Ownership

variable {Types Values : Type} (store : Store Types Values)

/-- The object that a handle stands for. -/
def object? : Handle → Option (Object Types Values)
  | .node id => (store.node? id).map .node
  | .list id => (store.list? id).map .list
  | .note id => (store.note? id).map .note
  | .block id => (store.block? id).map .block
  | .table id => (store.table? id).map .table

/-- The object is in the store. -/
def Has (handle : Handle) : Prop :=
  (store.object? handle).isSome

/-- The objects that an object of the store holds, in order. -/
def children (handle : Handle) : List Handle :=
  ((store.object? handle).map Object.children).getD []

/-- One object holds another. -/
def Owns (owner part : Handle) : Prop :=
  part ∈ store.children owner

/-- An object holds another, directly or not, or is the other. -/
abbrev Reaches : Handle → Handle → Prop :=
  Relation.ReflTransGen store.Owns

/-- What is held is in the store. -/
def Closed : Prop :=
  ∀ ⦃owner part : Handle⦄, store.Owns owner part → store.Has part

/-- No part of an object holds itself, directly or not. -/
def AcyclicFrom (handle : Handle) : Prop :=
  ∀ part, store.Reaches handle part → ¬Relation.TransGen store.Owns part part

/-- No object holds itself, directly or not. -/
def Acyclic : Prop :=
  ∀ handle, ¬Relation.TransGen store.Owns handle handle

end Ownership

theorem Acyclic.acyclicFrom {store : Store} (acyclic : store.Acyclic)
    (handle : Handle) : store.AcyclicFrom handle :=
  fun part _ => acyclic part

/-- One object is written, and all others stay as they are. -/
def Updates (store : Store) (handle : Handle) (object : Object)
    (changed : Store) : Prop :=
  ∀ other, changed.object? other =
    if other = handle then some object else store.object? other

/-- The object that is written was not there before. -/
structure Adds (store : Store) (handle : Handle) (object : Object)
    (new : Store) : Prop where
  fresh : store.object? handle = none
  updates : store.Updates handle object new

section Lookup

variable {store : Store} {handle : Handle} {object : Object}

theorem has_of_object?_eq_some (found : store.object? handle = some object) :
    store.Has handle :=
  Option.isSome_of_eq_some found

theorem children_of_object?_eq_some
    (found : store.object? handle = some object) :
    store.children handle = object.children := by
  rw [children, found, Option.map_some, Option.getD_some]

theorem has_of_owns {part : Handle} (owns : store.Owns handle part) :
    store.Has handle := by
  unfold Owns children at owns
  unfold Has
  cases found : store.object? handle with
  | none => simp [found] at owns
  | some object => rfl

theorem object?_node_eq_some_iff {id : NodeId} {node : Node} :
    store.object? (.node id) = some (.node node) ↔
      store.node? id = some node := by
  simp [object?]

theorem object?_list_eq_some_iff {id : ListId} {list : Named NodeId} :
    store.object? (.list id) = some (.list list) ↔
      store.list? id = some list := by
  simp [object?]

theorem object?_note_eq_some_iff {id : NoteId} {note : Note} :
    store.object? (.note id) = some (.note note) ↔
      store.note? id = some note := by
  simp [object?]

theorem object?_block_eq_some_iff {id : BlockId} {notes : Array NoteId} :
    store.object? (.block id) = some (.block notes) ↔
      store.block? id = some notes := by
  simp [object?]

theorem object?_table_eq_some_iff {id : TableId} {table : Named BlockId} :
    store.object? (.table id) = some (.table table) ↔
      store.table? id = some table := by
  simp [object?]

end Lookup

/-- A store grows if every handle keeps its object. -/
theorem growsTo_of_extendedBy {old new : Store}
    (extended : ExtendedBy old.object? new.object?) : old.GrowsTo new where
  nodes _ _ found := object?_node_eq_some_iff.mp
    (extended (object?_node_eq_some_iff.mpr found))
  lists _ _ found := object?_list_eq_some_iff.mp
    (extended (object?_list_eq_some_iff.mpr found))
  notes _ _ found := object?_note_eq_some_iff.mp
    (extended (object?_note_eq_some_iff.mpr found))
  blocks _ _ found := object?_block_eq_some_iff.mp
    (extended (object?_block_eq_some_iff.mpr found))
  tables _ _ found := object?_table_eq_some_iff.mp
    (extended (object?_table_eq_some_iff.mpr found))

theorem GrowsTo.object? {old new : Store} (grows : old.GrowsTo new) :
    ExtendedBy old.object? new.object? := by
  intro handle object found
  cases handle with
  | node id =>
      obtain ⟨node, there, rfl⟩ := Option.map_eq_some_iff.mp found
      exact object?_node_eq_some_iff.mpr (grows.nodes there)
  | list id =>
      obtain ⟨list, there, rfl⟩ := Option.map_eq_some_iff.mp found
      exact object?_list_eq_some_iff.mpr (grows.lists there)
  | note id =>
      obtain ⟨note, there, rfl⟩ := Option.map_eq_some_iff.mp found
      exact object?_note_eq_some_iff.mpr (grows.notes there)
  | block id =>
      obtain ⟨block, there, rfl⟩ := Option.map_eq_some_iff.mp found
      exact object?_block_eq_some_iff.mpr (grows.blocks there)
  | table id =>
      obtain ⟨table, there, rfl⟩ := Option.map_eq_some_iff.mp found
      exact object?_table_eq_some_iff.mpr (grows.tables there)

namespace GrowsTo

variable {old new : Store} {handle : Handle}

theorem object?_eq_of_has (grows : old.GrowsTo new) (has : old.Has handle) :
    new.object? handle = old.object? handle := by
  obtain ⟨object, found⟩ := Option.isSome_iff_exists.mp has
  rw [found, grows.object? found]

theorem has (grows : old.GrowsTo new) (has : old.Has handle) :
    new.Has handle := by
  rwa [Has, grows.object?_eq_of_has has]

theorem children_of_has (grows : old.GrowsTo new) (has : old.Has handle) :
    new.children handle = old.children handle := by
  rw [children, grows.object?_eq_of_has has, children]

end GrowsTo

section Writing

variable (store : Store)

private theorem map_getElem?_push {α β : Type} (objects : Array α) (object : α)
    (wrap : α → β) (index : Nat) :
    (objects.push object)[index]?.map wrap =
      if index = objects.size then some (wrap object)
      else objects[index]?.map wrap := by
  rw [Array.getElem?_push]
  split <;> rfl

private theorem map_getElem?_setIfInBounds {α β : Type} {objects : Array α}
    {position : Nat} {found : α} (inside : objects[position]? = some found)
    (object : α) (wrap : α → β) (index : Nat) :
    (objects.setIfInBounds position object)[index]?.map wrap =
      if index = position then some (wrap object)
      else objects[index]?.map wrap := by
  have inRange := (Array.getElem?_eq_some_iff.mp inside).1
  rw [Array.getElem?_setIfInBounds, if_pos inRange]
  by_cases same : position = index
  · rw [if_pos same, if_pos same.symm, Option.map_some]
  · rw [if_neg same, if_neg (Ne.symm same)]

theorem adds_newNode (node : Node) :
    store.Adds (.node ((newNode node).run store).1) (.node node)
      ((newNode node).run store).2 where
  fresh := by simp [object?, node?, newNode, StateT.run]
  updates := by
    rintro (⟨⟨index⟩⟩ | _ | _ | _ | _)
    case node =>
      simpa [object?, node?, newNode, StateT.run] using
        map_getElem?_push store.nodes node Object.node index
    all_goals exact (if_neg nofun).symm

theorem updates_setNode {id : NodeId} {node : Node}
    (found : store.node? id = some node) (edited : Node) :
    store.Updates (.node id) (.node edited) (store.setNode id edited) := by
  obtain ⟨position⟩ := id
  rintro (⟨⟨index⟩⟩ | _ | _ | _ | _)
  case node =>
    simpa [object?, node?, setNode] using
      map_getElem?_setIfInBounds found edited Object.node index
  all_goals exact (if_neg nofun).symm

theorem adds_newList (list : Named NodeId) :
    store.Adds (.list ((newList list).run store).1) (.list list)
      ((newList list).run store).2 where
  fresh := by simp [object?, list?, newList, StateT.run]
  updates := by
    rintro (_ | ⟨⟨index⟩⟩ | _ | _ | _)
    case list =>
      simpa [object?, list?, newList, StateT.run] using
        map_getElem?_push store.lists list Object.list index
    all_goals exact (if_neg nofun).symm

theorem updates_setList {id : ListId} {list : Named NodeId}
    (found : store.list? id = some list) (edited : Named NodeId) :
    store.Updates (.list id) (.list edited) (store.setList id edited) := by
  obtain ⟨position⟩ := id
  rintro (_ | ⟨⟨index⟩⟩ | _ | _ | _)
  case list =>
    simpa [object?, list?, setList] using
      map_getElem?_setIfInBounds found edited Object.list index
  all_goals exact (if_neg nofun).symm

theorem adds_newNote (note : Note) :
    store.Adds (.note ((newNote note).run store).1) (.note note)
      ((newNote note).run store).2 where
  fresh := by simp [object?, note?, newNote, StateT.run]
  updates := by
    rintro (_ | _ | ⟨⟨index⟩⟩ | _ | _)
    case note =>
      simpa [object?, note?, newNote, StateT.run] using
        map_getElem?_push store.notes note Object.note index
    all_goals exact (if_neg nofun).symm

theorem updates_setNote {id : NoteId} {note : Note}
    (found : store.note? id = some note) (edited : Note) :
    store.Updates (.note id) (.note edited) (store.setNote id edited) := by
  obtain ⟨position⟩ := id
  rintro (_ | _ | ⟨⟨index⟩⟩ | _ | _)
  case note =>
    simpa [object?, note?, setNote] using
      map_getElem?_setIfInBounds found edited Object.note index
  all_goals exact (if_neg nofun).symm

theorem adds_newBlock (block : Array NoteId) :
    store.Adds (.block ((newBlock block).run store).1) (.block block)
      ((newBlock block).run store).2 where
  fresh := by simp [object?, block?, newBlock, StateT.run]
  updates := by
    rintro (_ | _ | _ | ⟨⟨index⟩⟩ | _)
    case block =>
      simpa [object?, block?, newBlock, StateT.run] using
        map_getElem?_push store.blocks block Object.block index
    all_goals exact (if_neg nofun).symm

theorem updates_setBlock {id : BlockId} {block : Array NoteId}
    (found : store.block? id = some block) (edited : Array NoteId) :
    store.Updates (.block id) (.block edited) (store.setBlock id edited) := by
  obtain ⟨position⟩ := id
  rintro (_ | _ | _ | ⟨⟨index⟩⟩ | _)
  case block =>
    simpa [object?, block?, setBlock] using
      map_getElem?_setIfInBounds found edited Object.block index
  all_goals exact (if_neg nofun).symm

theorem adds_newTable (table : Named BlockId) :
    store.Adds (.table ((newTable table).run store).1) (.table table)
      ((newTable table).run store).2 where
  fresh := by simp [object?, table?, newTable, StateT.run]
  updates := by
    rintro (_ | _ | _ | _ | ⟨⟨index⟩⟩)
    case table =>
      simpa [object?, table?, newTable, StateT.run] using
        map_getElem?_push store.tables table Object.table index
    all_goals exact (if_neg nofun).symm

theorem updates_setTable {id : TableId} {table : Named BlockId}
    (found : store.table? id = some table) (edited : Named BlockId) :
    store.Updates (.table id) (.table edited) (store.setTable id edited) := by
  obtain ⟨position⟩ := id
  rintro (_ | _ | _ | _ | ⟨⟨index⟩⟩)
  case table =>
    simpa [object?, table?, setTable] using
      map_getElem?_setIfInBounds found edited Object.table index
  all_goals exact (if_neg nofun).symm

end Writing

section Cycles

variable {store changed : Store} {handle : Handle} {object : Object}

namespace Updates

theorem object?_self (updates : store.Updates handle object changed) :
    changed.object? handle = some object := by
  rw [updates handle, if_pos rfl]

theorem object?_other (updates : store.Updates handle object changed)
    {other : Handle} (different : other ≠ handle) :
    changed.object? other = store.object? other := by
  rw [updates other, if_neg different]

theorem children_self (updates : store.Updates handle object changed) :
    changed.children handle = object.children :=
  children_of_object?_eq_some updates.object?_self

theorem children_other (updates : store.Updates handle object changed)
    {other : Handle} (different : other ≠ handle) :
    changed.children other = store.children other := by
  rw [children, updates.object?_other different, children]

theorem has_self (updates : store.Updates handle object changed) :
    changed.Has handle :=
  has_of_object?_eq_some updates.object?_self

theorem has_of_has (updates : store.Updates handle object changed)
    {other : Handle} (has : store.Has other) : changed.Has other := by
  by_cases same : other = handle
  · subst same
    exact updates.has_self
  · rwa [Has, updates.object?_other same]

theorem closed (updates : store.Updates handle object changed)
    (closed : store.Closed)
    (known : ∀ child ∈ object.children, changed.Has child) :
    changed.Closed := by
  intro owner part owns
  by_cases same : owner = handle
  · subst same
    rw [Owns, updates.children_self] at owns
    exact known part owns
  · rw [Owns, updates.children_other same] at owns
    exact updates.has_of_has (closed owns)

/-- Nothing new is held unless it leads nowhere near the object written. -/
theorem owns_cases (updates : store.Updates handle object changed)
    (apart : ∀ child ∈ object.children,
      child ∈ store.children handle ∨ ¬store.Reaches child handle)
    {owner part : Handle} (owns : changed.Owns owner part) :
    store.Owns owner part ∨ owner = handle ∧ ¬store.Reaches part handle := by
  by_cases same : owner = handle
  · subst same
    rw [Owns, updates.children_self] at owns
    rcases apart part owns with old | unrelated
    · exact .inl old
    · exact .inr ⟨rfl, unrelated⟩
  · rw [Owns, updates.children_other same] at owns
    exact .inl owns

/-- A way that is new goes through the object written and on to one of its new
parts. -/
theorem reaches_cases (updates : store.Updates handle object changed)
    (apart : ∀ child ∈ object.children,
      child ∈ store.children handle ∨ ¬store.Reaches child handle)
    {first last : Handle} (reaches : changed.Reaches first last) :
    store.Reaches first last ∨
      store.Reaches first handle ∧
        ∃ child, ¬store.Reaches child handle ∧ store.Reaches child last := by
  induction reaches with
  | refl => exact .inl .refl
  | tail earlier owns induction =>
      rcases updates.owns_cases apart owns with old | ⟨rfl, unrelated⟩
      · rcases induction with before | ⟨toHandle, child, unrelated, fromChild⟩
        · exact .inl (before.tail old)
        · exact .inr ⟨toHandle, child, unrelated, fromChild.tail old⟩
      · rcases induction with before | ⟨-, child, unrelated', fromChild⟩
        · exact .inr ⟨before, _, unrelated, .refl⟩
        · exact (unrelated' fromChild).elim

/-- An object can be written without a cycle as long as none of its new parts
leads back to it. -/
theorem acyclic (updates : store.Updates handle object changed)
    (acyclic : store.Acyclic)
    (apart : ∀ child ∈ object.children,
      child ∈ store.children handle ∨ ¬store.Reaches child handle) :
    changed.Acyclic := by
  intro first cycle
  obtain ⟨last, reaches, owns⟩ := Relation.TransGen.tail'_iff.mp cycle
  rcases updates.owns_cases apart owns with old | ⟨rfl, unrelated⟩
  · rcases updates.reaches_cases apart reaches with
      before | ⟨toHandle, child, unrelated, fromChild⟩
    · exact acyclic first (.tail' before old)
    · exact unrelated ((fromChild.tail old).trans toHandle)
  · rcases updates.reaches_cases apart reaches with before | ⟨before, -⟩
    · exact unrelated before
    · exact unrelated before

/-- What leads to the object written still does. -/
theorem reaches_of_reaches (updates : store.Updates handle object changed)
    {first : Handle} (reaches : store.Reaches first handle) :
    changed.Reaches first handle := by
  induction reaches using Relation.ReflTransGen.head_induction_on with
  | refl => exact .refl
  | @head owner part owns later induction =>
      by_cases same : owner = handle
      · subst same
        exact .refl
      · refine .head ?_ induction
        rwa [Owns, updates.children_other same]

/-- A part that leads back to its owner closes a cycle. -/
theorem not_acyclic (updates : store.Updates handle object changed)
    {child : Handle} (held : child ∈ object.children)
    (reaches : store.Reaches child handle) : ¬changed.Acyclic := by
  intro acyclic
  have owns : changed.Owns handle child := by
    rwa [Owns, updates.children_self]
  exact acyclic handle (.head' owns (updates.reaches_of_reaches reaches))

end Updates

theorem Closed.has_of_reaches (closed : store.Closed) {first last : Handle}
    (reaches : store.Reaches first last) (has : store.Has first) :
    store.Has last := by
  cases reaches with
  | refl => exact has
  | tail _ owns => exact closed owns

namespace Adds

theorem not_has (adds : store.Adds handle object changed) :
    ¬store.Has handle := by
  simp [Has, adds.fresh]

theorem growsTo (adds : store.Adds handle object changed) :
    store.GrowsTo changed := by
  refine growsTo_of_extendedBy fun other found there => ?_
  have different : other ≠ handle := by
    rintro rfl
    exact adds.not_has (has_of_object?_eq_some there)
  rw [adds.updates.object?_other different, there]

theorem closed (adds : store.Adds handle object changed)
    (closed : store.Closed) (known : ∀ child ∈ object.children, store.Has child) :
    changed.Closed :=
  adds.updates.closed closed fun child held =>
    adds.updates.has_of_has (known child held)

/-- A new object closes no cycle, because nothing holds it yet. -/
theorem acyclic (adds : store.Adds handle object changed)
    (closed : store.Closed) (acyclic : store.Acyclic)
    (known : ∀ child ∈ object.children, store.Has child) : changed.Acyclic := by
  refine adds.updates.acyclic acyclic fun child held => .inr ?_
  intro reaches
  exact adds.not_has (closed.has_of_reaches reaches (known child held))

end Adds

end Cycles

end Store

end MaterialGraph
