import MaterialGraph.Store.Basic

/-!
# Unfolding objects into trees

The unfolding of an object is the tree that forgets identities: a shared part
occurs wherever it is held.  An object that owns itself has no unfolding.  On
a path that does not come back to an expression there are at most as many
expressions as the store holds, which bounds the search.

An outline is an unfolding that stops below a given number of direct calls.
The direct calls at that depth are left without arguments, and the lists that
they own are not looked at.  Every object has outlines.
-/

namespace MaterialGraph

/-- Apply a function to every child, if it is defined for all of them. -/
def mapEntries? {α β : Type} (change : α → Option β) :
    List (String × α) → Option (List (String × β))
  | [] => some []
  | (name, child) :: rest => do
      let changed ← change child
      let others ← mapEntries? change rest
      return (name, changed) :: others

namespace Node

/-- The tree of an expression, given the trees of its arguments. -/
def expand? (arguments? : ListId → Option Arguments) : Node → Option Expression
  | constant type value => some (.constant type value)
  | call type tag => some (.call type tag)
  | parameter type index => some (.parameter type index)
  | directCall type tag list => do
      let arguments ← arguments? list
      return .directCall type tag arguments
  | temporary type index => some (.temporary type index)

end Node

namespace Store

/-- The entries of a list, given the trees of its expressions. -/
def expandList? (store : Store) (node? : NodeId → Option Expression)
    (id : ListId) : Option Arguments := do
  let list ← store.list? id
  mapEntries? node? list.toList

/-- The annotation with a given identity, given the trees of expressions. -/
def expandNote? (store : Store) (node? : NodeId → Option Expression)
    (id : NoteId) : Option AnnotationCall := do
  let note ← store.note? id
  let arguments ← store.expandList? node? note.arguments
  return ⟨note.name, arguments⟩

def expandBlock? (store : Store) (node? : NodeId → Option Expression)
    (id : BlockId) : Option AnnotationBlock := do
  let notes ← store.block? id
  notes.toList.mapM (store.expandNote? node?)

def expandTable? (store : Store) (node? : NodeId → Option Expression)
    (id : TableId) : Option AnnotationTable := do
  let table ← store.table? id
  mapEntries? (store.expandBlock? node?) table.toList

/-- The tree of an object, given the trees of expressions. -/
def expand? (store : Store) (node? : NodeId → Option Expression) :
    Handle → Option Tree
  | .node id => Tree.expression <$> node? id
  | .list id => Tree.arguments <$> store.expandList? node? id
  | .note id => Tree.annotationCall <$> store.expandNote? node? id
  | .block id => Tree.annotationBlock <$> store.expandBlock? node? id
  | .table id => Tree.annotationTable <$> store.expandTable? node? id

/-- The tree of an expression if no path from it has more than `length`
expressions. -/
def unfoldNode? (store : Store) : (length : Nat) → NodeId → Option Expression
  | 0, _ => none
  | length + 1, id =>
      (store.node? id).bind
        (Node.expand? (store.expandList? (store.unfoldNode? length)))

/-- The tree of an object, unless the object owns itself. -/
def unfolding? (store : Store) (handle : Handle) : Option Tree :=
  store.expand? (store.unfoldNode? store.nodes.size) handle

/-- The tree of an expression down to a number of direct calls. -/
def outlineNode? (store : Store) : (calls : Nat) → NodeId → Option Expression
  | 0, id => (store.node? id).bind (Node.expand? fun _ => some [])
  | calls + 1, id =>
      (store.node? id).bind
        (Node.expand? (store.expandList? (store.outlineNode? calls)))

/-- The tree of an object down to a number of direct calls. -/
def outline? (store : Store) (calls : Nat) (handle : Handle) : Option Tree :=
  store.expand? (store.outlineNode? calls) handle

end Store

end MaterialGraph
