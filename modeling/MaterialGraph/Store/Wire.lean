import MaterialGraph.Expression.Wire
import MaterialGraph.Store.Unfold

/-!
# Objects of a store as bytes

An object is written part by part, and a part that is held twice is written
twice.  On a path that does not come back to an expression there are at most as
many expressions as the store holds, which bounds the recursion.  An object
that owns itself has no bytes.
-/

namespace MaterialGraph

open ByteStream

/-- The bytes of an expression, given the bytes of lists. -/
def Node.encode? (encodeList? : ListId → Option (List UInt8)) :
    Node → Option (List UInt8)
  | constant type value =>
      some (ExpressionKind.constant.code :: (type.encode ++ value.encode))
  | call type tag =>
      some (ExpressionKind.call.code :: (type.encode ++ tag.encode))
  | parameter type index =>
      some (ExpressionKind.parameter.code ::
        (type.encode ++ encodeVarint index.toNat))
  | directCall type tag list => do
      let arguments ← encodeList? list
      return ExpressionKind.directCall.code ::
        (type.encode ++ tag.encode ++ arguments)
  | temporary type index =>
      some (ExpressionKind.temporary.code ::
        (type.encode ++ encodeVarint index.toNat))

namespace Store

variable (store : Store)

/-- Named children as bytes, each after its name. -/
def encodeNamed (entries : List (String × List UInt8)) : List UInt8 :=
  entries.flatMap fun entry => encodeText entry.1 ++ entry.2

/-- The bytes of a list, given the bytes of expressions. -/
def encodeList? (encodeNode? : NodeId → Option (List UInt8)) (id : ListId) :
    Option (List UInt8) := do
  let list ← store.list? id
  let entries ← mapEntries? encodeNode? list.toList
  return encodeVarint list.size ++ encodeNamed entries

/-- The bytes of an expression, if no path from it has more than `length`
expressions. -/
def encodeNode? : (length : Nat) → NodeId → Option (List UInt8)
  | 0, _ => none
  | length + 1, id =>
      (store.node? id).bind
        (Node.encode? (store.encodeList? (encodeNode? length)))

/-- The bytes of an annotation, given the bytes of lists. -/
def encodeNote? (encodeList? : ListId → Option (List UInt8)) (id : NoteId) :
    Option (List UInt8) := do
  let note ← store.note? id
  let arguments ← encodeList? note.arguments
  return encodeText note.name ++ arguments

/-- The bytes of a block, given the bytes of annotations. -/
def encodeBlock? (encodeNote? : NoteId → Option (List UInt8)) (id : BlockId) :
    Option (List UInt8) := do
  let notes ← store.block? id
  let calls ← notes.toList.mapM encodeNote?
  return encodeVarint notes.size ++ calls.flatten

/-- The bytes of a table, given the bytes of blocks. -/
def encodeTable? (encodeBlock? : BlockId → Option (List UInt8)) (id : TableId) :
    Option (List UInt8) := do
  let table ← store.table? id
  let entries ← mapEntries? encodeBlock? table.toList
  return encodeVarint table.size ++ encodeNamed entries

/-- The bytes of an object, unless it owns itself. -/
def encode? : Handle → Option (List UInt8) :=
  let node? := store.encodeNode? store.nodes.size
  let list? := store.encodeList? node?
  let note? := store.encodeNote? list?
  let block? := store.encodeBlock? note?
  let table? := store.encodeTable? block?
  fun
  | .node id => node? id
  | .list id => list? id
  | .note id => note? id
  | .block id => block? id
  | .table id => table? id

end Store

end MaterialGraph
