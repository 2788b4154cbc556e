import MaterialGraph.Expression.Basic
import MaterialGraph.Named

/-!
# Stores of shared objects

A store holds objects that may be shared and changed.  An object is known by
its identity, and containers hold the identities of their children.  Objects
are never removed, so an identity stays good.

The five sorts of objects correspond to the five forms of trees.  Nothing
keeps a list from holding, directly or not, a direct call whose arguments it
is.

Types and values are held by expressions and are not objects of a store.  What
they are is a parameter of the store, so that an operation that only passes
them on works on references to them as well.
-/

namespace MaterialGraph

/-- The identity of an expression. -/
structure NodeId where
  index : Nat
  deriving DecidableEq, Repr

/-- The identity of a list of arguments. -/
structure ListId where
  index : Nat
  deriving DecidableEq, Repr

/-- The identity of an annotation. -/
structure NoteId where
  index : Nat
  deriving DecidableEq, Repr

/-- The identity of a block of annotations. -/
structure BlockId where
  index : Nat
  deriving DecidableEq, Repr

/-- The identity of a table of blocks. -/
structure TableId where
  index : Nat
  deriving DecidableEq, Repr

/-- The identity of an object of any sort. -/
inductive Handle
  | node (id : NodeId)
  | list (id : ListId)
  | note (id : NoteId)
  | block (id : BlockId)
  | table (id : TableId)
  deriving DecidableEq, Repr

/-- An expression whose arguments, if it has any, are a shared list. -/
inductive Node (Types : Type := ValueType) (Values : Type := Value)
  | constant (type : Types) (value : Values)
  | call (type : Types) (tag : Tag)
  | parameter (type : Types) (index : UInt64)
  | directCall (type : Types) (tag : Tag) (arguments : ListId)
  | temporary (type : Types) (index : UInt64)
  deriving DecidableEq

namespace Node

variable {Types Values : Type}

def kind : Node Types Values → ExpressionKind
  | constant .. => .constant
  | call .. => .call
  | parameter .. => .parameter
  | directCall .. => .directCall
  | temporary .. => .temporary

def type : Node Types Values → Types
  | constant type _ => type
  | call type _ => type
  | parameter type _ => type
  | directCall type _ _ => type
  | temporary type _ => type

end Node

/-- An annotation whose arguments are a shared list. -/
structure Note where
  name : String
  arguments : ListId
  deriving DecidableEq, Repr

/-- The objects of each sort; an identity is a position. -/
structure Store (Types : Type := ValueType) (Values : Type := Value) where
  nodes : Array (Node Types Values) := #[]
  lists : Array (Named NodeId) := #[]
  notes : Array Note := #[]
  blocks : Array (Array NoteId) := #[]
  tables : Array (Named BlockId) := #[]

namespace Store

variable {Types Values : Type} (store : Store Types Values)

def node? (id : NodeId) : Option (Node Types Values) :=
  store.nodes[id.index]?

def list? (id : ListId) : Option (Named NodeId) :=
  store.lists[id.index]?

def note? (id : NoteId) : Option Note :=
  store.notes[id.index]?

def block? (id : BlockId) : Option (Array NoteId) :=
  store.blocks[id.index]?

def table? (id : TableId) : Option (Named BlockId) :=
  store.tables[id.index]?

def setNode (id : NodeId) (node : Node Types Values) : Store Types Values :=
  { store with nodes := store.nodes.setIfInBounds id.index node }

def setList (id : ListId) (list : Named NodeId) : Store Types Values :=
  { store with lists := store.lists.setIfInBounds id.index list }

def setNote (id : NoteId) (note : Note) : Store Types Values :=
  { store with notes := store.notes.setIfInBounds id.index note }

def setBlock (id : BlockId) (block : Array NoteId) : Store Types Values :=
  { store with blocks := store.blocks.setIfInBounds id.index block }

def setTable (id : TableId) (table : Named BlockId) : Store Types Values :=
  { store with tables := store.tables.setIfInBounds id.index table }

/-- A new expression. -/
def newNode (node : Node Types Values) : StateM (Store Types Values) NodeId :=
  fun store =>
    (⟨store.nodes.size⟩, { store with nodes := store.nodes.push node })

/-- A new list of arguments. -/
def newList (list : Named NodeId) : StateM (Store Types Values) ListId :=
  fun store =>
    (⟨store.lists.size⟩, { store with lists := store.lists.push list })

/-- A new annotation. -/
def newNote (note : Note) : StateM Store NoteId := fun store =>
  (⟨store.notes.size⟩, { store with notes := store.notes.push note })

/-- A new block of annotations. -/
def newBlock (block : Array NoteId) : StateM Store BlockId := fun store =>
  (⟨store.blocks.size⟩, { store with blocks := store.blocks.push block })

/-- A new table of blocks. -/
def newTable (table : Named BlockId) : StateM Store TableId := fun store =>
  (⟨store.tables.size⟩, { store with tables := store.tables.push table })

end Store

end MaterialGraph
