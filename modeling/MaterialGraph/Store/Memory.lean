import MaterialGraph.Expression.Footprint
import MaterialGraph.Expression.Kind
import MaterialGraph.Store.Basic

/-!
# The memory that objects report

An object reports its own bytes and the bytes of the objects that it holds, as
often as it holds them.  How many bytes are its own depends on the machine and
on the room that texts and containers have reserved, which may be more than
they need.  The footprint of a tree is what its object reports on a machine
that reserves no more than is needed.  Amounts are natural numbers, and a
machine reports them as long as they fit its words.

On a path that does not come back to an expression there are at most as many
expressions as the store holds, which bounds the recursion.
-/

namespace MaterialGraph

/-- The fixed sizes on a machine.  No object takes nothing. -/
structure Sizes where
  expression : ExpressionKind → Nat
  list : Nat
  note : Nat
  block : Nat
  table : Nat
  /-- A text without its letters. -/
  text : Nat
  /-- An entry of the map from names to indices. -/
  position : Nat
  /-- A reference to an object. -/
  reference : Nat
  expression_pos : ∀ kind, 0 < expression kind
  list_pos : 0 < list
  note_pos : 0 < note
  block_pos : 0 < block
  table_pos : 0 < table

/-- How many entries the parts of a container have been given room for. -/
structure Room where
  names : Nat
  positions : Nat
  children : Nat

/-- The sizes on a machine, and the room that objects have reserved. -/
structure Allocation where
  sizes : Sizes
  /-- What the type of an expression reports. -/
  type : Handle → ValueType → Nat
  /-- What the value of a constant reports. -/
  value : Handle → Value → Nat
  /-- The room for the letters of a name that an object keeps. -/
  letters : Handle → String → Nat
  /-- The room in a container with so many entries. -/
  room : Handle → Nat → Room

/-- Some amounts together. -/
def Footprint.total (amounts : List Nat) : Nat :=
  amounts.foldr (· + ·) 0

namespace Allocation

variable (allocation : Allocation)

/-- The bytes that a container takes for names and for references.  Names are
kept twice, in their order and in the map to indices. -/
def overhead {α : Type} (handle : Handle) (named : Named α) : Nat :=
  let names :=
    Footprint.total (named.names.toList.map (allocation.letters handle))
  let room := allocation.room handle named.size
  2 * names +
    room.names * allocation.sizes.text +
    room.positions * allocation.sizes.position +
    room.children * allocation.sizes.reference

/-- Nothing is reserved that is not needed. -/
def tight : Allocation where
  sizes :=
    { expression := fun _ => Footprint.object
      list := Footprint.object
      note := Footprint.object
      block := Footprint.object
      table := Footprint.object
      text := 24
      position := 24
      reference := Footprint.slot
      expression_pos := fun _ => by decide
      list_pos := by decide
      note_pos := by decide
      block_pos := by decide
      table_pos := by decide }
  type _ type := type.footprint
  value _ value := value.footprint
  letters _ text := text.utf8ByteSize
  room _ size := ⟨size, size, size⟩

end Allocation

/-- The memory of an expression, given the memory of lists. -/
def Node.memory? (allocation : Allocation)
    (memoryOfList? : ListId → Option Nat) (handle : Handle) (node : Node) :
    Option Nat :=
  let own :=
    allocation.sizes.expression node.kind + allocation.type handle node.type
  match node with
  | constant _ value => some (own + allocation.value handle value)
  | directCall _ _ list => do
      let arguments ← memoryOfList? list
      return own + arguments
  | call .. | parameter .. | temporary .. => some own

namespace Store

variable (store : Store) (allocation : Allocation)

/-- The memory of a list, given the memory of expressions. -/
def memoryOfList? (memoryOfNode? : NodeId → Option Nat) (id : ListId) :
    Option Nat := do
  let list ← store.list? id
  let children ← list.children.toList.mapM memoryOfNode?
  return allocation.sizes.list + allocation.overhead (.list id) list +
    Footprint.total children

/-- The memory of an expression, if no path from it has more than `length`
expressions. -/
def memoryOfNode? : (length : Nat) → NodeId → Option Nat
  | 0, _ => none
  | length + 1, id =>
      (store.node? id).bind
        (Node.memory? allocation
          (store.memoryOfList? allocation (memoryOfNode? length)) (.node id))

/-- The memory of an annotation, given the memory of lists. -/
def memoryOfNote? (memoryOfList? : ListId → Option Nat) (id : NoteId) :
    Option Nat := do
  let note ← store.note? id
  let arguments ← memoryOfList? note.arguments
  return allocation.sizes.note + allocation.letters (.note id) note.name +
    arguments

/-- The memory of a block, given the memory of annotations. -/
def memoryOfBlock? (memoryOfNote? : NoteId → Option Nat) (id : BlockId) :
    Option Nat := do
  let notes ← store.block? id
  let children ← notes.toList.mapM memoryOfNote?
  let room := (allocation.room (.block id) notes.size).children
  return allocation.sizes.block + room * allocation.sizes.reference +
    Footprint.total children

/-- The memory of a table, given the memory of blocks. -/
def memoryOfTable? (memoryOfBlock? : BlockId → Option Nat) (id : TableId) :
    Option Nat := do
  let table ← store.table? id
  let children ← table.children.toList.mapM memoryOfBlock?
  return allocation.sizes.table + allocation.overhead (.table id) table +
    Footprint.total children

/-- The memory that an object reports, unless it owns itself. -/
def memory? : Handle → Option Nat :=
  let node? := store.memoryOfNode? allocation store.nodes.size
  let list? := store.memoryOfList? allocation node?
  let note? := store.memoryOfNote? allocation list?
  let block? := store.memoryOfBlock? allocation note?
  let table? := store.memoryOfTable? allocation block?
  fun
  | .node id => node? id
  | .list id => list? id
  | .note id => note? id
  | .block id => block? id
  | .table id => table? id

end Store

end MaterialGraph
