import MaterialGraph.Store.Dump
import MaterialGraph.Store.Memory
import MaterialGraph.Store.Operation
import MaterialGraph.Store.Order
import MaterialGraph.Store.Wire

/-!
# Looking at objects of a store

Queries change nothing.  A query that is meaningless for an object of some
sort is refused.
-/

namespace MaterialGraph

/-- What is told of an object without its children. -/
inductive Summary
  | constant (type : ValueType) (value : Value)
  | call (type : ValueType) (tag : Tag)
  | parameter (type : ValueType) (index : UInt64)
  | directCall (type : ValueType) (tag : Tag) (size : Nat)
  | temporary (type : ValueType) (index : UInt64)
  | container (size : Nat)
  | note (name : String) (size : Nat)
  deriving DecidableEq

namespace Store

/-- The number of entries of a list. -/
def listSize (store : Store) (id : ListId) : Except Refusal Nat := do
  let list ← require (store.list? id)
  return list.size

def summary (store : Store) : Handle → Except Refusal Summary
  | .node id => do
      match ← require (store.node? id) with
      | .constant type value => return .constant type value
      | .call type tag => return .call type tag
      | .parameter type index => return .parameter type index
      | .directCall type tag list =>
          return .directCall type tag (← store.listSize list)
      | .temporary type index => return .temporary type index
  | .list id => Summary.container <$> store.listSize id
  | .note id => do
      let note ← require (store.note? id)
      return .note note.name (← store.listSize note.arguments)
  | .block id => do
      let block ← require (store.block? id)
      return .container block.size
  | .table id => do
      let table ← require (store.table? id)
      return .container table.size

/-- The kind of an expression. -/
def kind (store : Store) (handle : Handle) : Except Refusal ExpressionKind := do
  let (_, node) ← store.requireNode handle
  return node.kind

/-- The shared arguments of a direct call or an annotation. -/
def argumentsOf (store : Store) (handle : Handle) : Except Refusal Handle :=
  match handle with
  | .note id => do
      let note ← require (store.note? id)
      return .list note.arguments
  | _ => do
      match ← store.requireNode handle with
      | (_, .directCall _ _ list) => return .list list
      | _ => .error .wrongSort

/-- The number of children of a container. -/
def size (store : Store) : Handle → Except Refusal Nat
  | .list id => store.listSize id
  | .block id => do
      let block ← require (store.block? id)
      return block.size
  | .table id => do
      let table ← require (store.table? id)
      return table.size
  | _ => .error .wrongSort

/-- The index of the child with a given name. -/
def indexOf (store : Store) (handle : Handle) (name : String) :
    Except Refusal (Option Nat) :=
  match handle with
  | .list id => do
      let list ← require (store.list? id)
      return list.indexOf? name
  | .table id => do
      let table ← require (store.table? id)
      return table.indexOf? name
  | _ => .error .wrongSort

/-- The name of the child at a given index. -/
def nameAt (store : Store) (handle : Handle) (index : Nat) :
    Except Refusal (Option String) :=
  match handle with
  | .list id => do
      let list ← require (store.list? id)
      return list.nameAt? index
  | .table id => do
      let table ← require (store.table? id)
      return table.nameAt? index
  | _ => .error .wrongSort

/-- The child in a slot; blocks have no names. -/
def get (store : Store) (handle : Handle) (slot : Slot) :
    Except Refusal (Option Handle) :=
  match handle with
  | .list id => do
      let list ← require (store.list? id)
      return (list.getSlot? slot).map .node
  | .block id =>
      match slot with
      | .index position => do
          let block ← require (store.block? id)
          return block[position]?.map .note
      | .name _ => .error .wrongSort
  | .table id => do
      let table ← require (store.table? id)
      return (table.getSlot? slot).map .block
  | _ => .error .wrongSort

/-- The children of a container in order, with their names if it has names. -/
def entries (store : Store) (handle : Handle) :
    Except Refusal (List (Option String × Handle)) :=
  match handle with
  | .list id => do
      let list ← require (store.list? id)
      return list.toList.map fun entry => (some entry.1, .node entry.2)
  | .block id => do
      let block ← require (store.block? id)
      return block.toList.map fun note => (none, .note note)
  | .table id => do
      let table ← require (store.table? id)
      return table.toList.map fun entry => (some entry.1, .block entry.2)
  | _ => .error .wrongSort

/-- The order of two expressions or of two lists. -/
def compare (store : Store) (left right : Handle) : Except Refusal Ordering :=
  match left, right with
  | .node left, .node right => require (store.compareNodes? left right)
  | .list left, .list right => require (store.compareArguments? left right)
  | _, _ => .error .wrongSort

/-- The bytes of an object. -/
def encode (store : Store) (handle : Handle) : Except Refusal (List UInt8) :=
  require (store.encode? handle)

/-- The dump of an object under a given name. -/
def dump (store : Store) (style : DumpStyle) (name : String) (handle : Handle) :
    Except Refusal String := do
  let lines ← require (store.lines? style name handle)
  return Line.renderAll style.indentWidth lines

/-- The memory that an object takes with all its parts. -/
def footprint (store : Store) (handle : Handle) : Except Refusal Nat :=
  require (store.memory? .tight handle)

end Store

end MaterialGraph
