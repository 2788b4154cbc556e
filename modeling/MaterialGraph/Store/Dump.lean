import MaterialGraph.Expression.Dump
import MaterialGraph.Store.Basic

/-!
# Dumping objects of a store

A dump goes down from an object and shows every part where it is held.  A
direct call beyond the limit of depth is not expanded, and the list that it owns
is not looked at, so that with a limit every object has a dump.  Without a limit
an object that owns itself has none: on a path that does not come back to an
expression there are at most as many expressions as the store holds.
-/

namespace MaterialGraph

/-- The lines of an expression below `calls` direct calls, given the lines of
what lists hold. -/
def Node.lines? (style : DumpStyle) (name : String) (level calls : Nat)
    (entryLines? : ListId → Option (List Line)) (node : Node) :
    Option (List Line) :=
  let head := style.headOf name node.kind node.type
  match node with
  | constant _ value => some [⟨level, head ++ value.text⟩]
  | call _ tag => some [⟨level, head ++ style.target tag⟩]
  | parameter _ index =>
      some [⟨level, head ++ "index " ++ toString index.toNat⟩]
  | temporary _ index =>
      some [⟨level, head ++ "index " ++ toString index.toNat⟩]
  | directCall _ tag list =>
      let target := style.target tag
      if style.cuts calls then
        some [⟨level, head ++ target ++ "(...)"⟩]
      else do
        let inner ← entryLines? list
        return bracketed level (head ++ target) "(" ")" "()" inner

namespace Store

variable (store : Store) (style : DumpStyle)

/-- How many expressions there can be on a path that is shown. -/
def room : Nat :=
  if style.depth = 0 then store.nodes.size else style.depth + 1

/-- What a list holds, given the lines of expressions by their names. -/
def entryLines? (nodeLines? : String → NodeId → Option (List Line))
    (id : ListId) : Option (List Line) := do
  let list ← store.list? id
  let lines ← list.toList.mapM fun entry => nodeLines? entry.1 entry.2
  return lines.flatten

/-- The lines of an expression below `calls` direct calls, if no path from it
that is shown has more than `length` expressions. -/
def nodeLines? : (length : Nat) → (name : String) → (level calls : Nat) →
    NodeId → Option (List Line)
  | 0, _, _, _, _ => none
  | length + 1, name, level, calls, id =>
      (store.node? id).bind
        (Node.lines? style name level calls
          (store.entryLines? fun name =>
            nodeLines? length name (level + 1) (calls + 1)))

/-- The lines of what a list holds that no direct call owns. -/
def argumentLines? (level : Nat) : ListId → Option (List Line) :=
  store.entryLines? fun name =>
    store.nodeLines? style (store.room style) name level 0

def listLines? (name : String) (level : Nat) (id : ListId) :
    Option (List Line) := do
  let inner ← store.argumentLines? style (level + 1) id
  return bracketed level ("expression_list " ++ name ++ " = ") "[" "]" "[ ]"
    inner

def noteLines? (name : String) (level : Nat) (id : NoteId) :
    Option (List Line) := do
  let note ← store.note? id
  let inner ← store.argumentLines? style (level + 1) note.arguments
  return bracketed level ("annotation " ++ name ++ " = " ++ note.name) "(" ")"
    "()" inner

/-- The annotations of a block are named by their positions. -/
def blockLines? (name : String) (level : Nat) (id : BlockId) :
    Option (List Line) := do
  let notes ← store.block? id
  let inner ← notes.toList.zipIdx.mapM fun entry =>
    store.noteLines? style (toString entry.2) (level + 1) entry.1
  return bracketed level ("annotation_block " ++ name ++ " = ") "[" "]" "[ ]"
    inner.flatten

def tableLines? (name : String) (level : Nat) (id : TableId) :
    Option (List Line) := do
  let table ← store.table? id
  let inner ← table.toList.mapM fun entry =>
    store.blockLines? style entry.1 (level + 1) entry.2
  return bracketed level ("annotation_list " ++ name ++ " = ") "[" "]" "[ ]"
    inner.flatten

/-- The lines of an object that stands by itself. -/
def lines? (name : String) : Handle → Option (List Line)
  | .node id => store.nodeLines? style (store.room style) name 0 0 id
  | .list id => store.listLines? style name 0 id
  | .note id => store.noteLines? style name 0 id
  | .block id => store.blockLines? style name 0 id
  | .table id => store.tableLines? style name 0 id

end Store

end MaterialGraph
