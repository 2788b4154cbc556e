import MaterialGraph.Expression.Wire
import MaterialGraph.Store.Clone
import MaterialGraph.Store.Place
import MaterialGraph.Store.Unfold

/-!
# Operations on a store

An operation makes a new object or changes one that exists.  It either
succeeds, with the object concerned and the changed store, or is refused; a
refused operation has no store of its own, so that nothing can have changed.
A run is a sequence of operations in which refused ones are passed over.
-/

namespace MaterialGraph

/-- A place in a container. -/
inductive Slot
  | index (position : Nat)
  | name (name : String)
  deriving DecidableEq, Repr

/-- Why an operation is refused. -/
inductive Refusal
  | edit (reason : EditError)
  | decode (reason : DecodeError)
  /-- The operation does not apply to objects of that sort. -/
  | wrongSort
  /-- There is no such object, or it owns itself and has no tree. -/
  | noTree
  deriving DecidableEq, Repr

/-- An operation; objects are given by their identities. -/
inductive Operation
  | newConstant (value : Value)
  | newCall (type : ValueType) (tag : Tag)
  | newParameter (type : ValueType) (index : UInt64)
  | newTemporary (type : ValueType) (index : UInt64)
  | newDirectCall (type : ValueType) (tag : Tag) (arguments : Handle)
  | newList
  | newNote (name : String) (arguments : Handle)
  | newBlock
  | newTable
  | place (tree : Tree)
  | clone (source : Handle)
  | decode (form : Form) (bytes : List UInt8)
  | reload (source : Handle)
  | setValue (target : Handle) (value : Value)
  | setCall (target : Handle) (tag : Tag)
  | setDefinition (target : Handle) (tag : Tag)
  | setIndex (target : Handle) (index : UInt64)
  | setName (target : Handle) (name : String)
  | set (container : Handle) (slot : Slot) (child : Handle)
  | add (container : Handle) (name : Option String) (child : Handle)

namespace Named

/-- Replace the child in a slot. -/
def setSlot {α : Type} (named : Named α) (slot : Slot) (child : α) :
    Except EditError (Named α) :=
  match slot with
  | .index position => named.set position child
  | .name name => named.setNamed name child

/-- The child in a slot. -/
def getSlot? {α : Type} (named : Named α) : Slot → Option α
  | .index position => named.get? position
  | .name name => named.find? name

end Named

namespace Store

/-- What an operation leads to: the object made or changed, and the store. -/
abbrev Outcome := Except Refusal (Handle × Store)

/-- Carry out a construction that cannot fail. -/
def create (store : Store) (make : StateM Store Handle) : Outcome :=
  .ok (make.run store)

/-- An expression, or the refusal for objects of another sort. -/
def requireNode (store : Store) : Handle → Except Refusal (NodeId × Node)
  | .node id =>
      match store.node? id with
      | some node => .ok (id, node)
      | none => .error .noTree
  | _ => .error .wrongSort

/-- An object that must be there. -/
def require {α : Type} : Option α → Except Refusal α
  | some found => .ok found
  | none => .error .noTree

/-- The identity of a list, or the refusal for objects of another sort. -/
def requireList (store : Store) : Handle → Except Refusal ListId
  | .list id => do
      let _ ← require (store.list? id)
      return id
  | _ => .error .wrongSort

/-- The tree of an object that does not own itself. -/
def requireTree (store : Store) (handle : Handle) : Except Refusal Tree :=
  match store.unfolding? handle with
  | some tree => .ok tree
  | none => .error .noTree

/-- Change an expression, if it is of a kind that can be changed so. -/
def changeNode (store : Store) (target : Handle)
    (change : Node → Except Refusal Node) : Outcome := do
  let (id, node) ← store.requireNode target
  let changed ← change node
  return (target, store.setNode id changed)

/-- Refuse the null tag. -/
def requireTag (tag : Tag) : Except Refusal Unit :=
  if tag.isNull then .error (.edit .invalidTag) else .ok ()

/-- Make an object that encodes to the given bytes; what follows it is not
read. -/
def decodeTree (form : Form) (bytes : List UInt8) : Except Refusal Tree :=
  match form.decode (.ofList bytes) with
  | .ok tree _ => .ok tree
  | .error reason _ => .error (.decode reason)

/-- Put an edit that can be refused into an operation. -/
def liftEdit {α : Type} : Except EditError α → Except Refusal α
  | .ok edited => .ok edited
  | .error reason => .error (.edit reason)

/-- Replace a child of a container. -/
def set (store : Store) (container : Handle) (slot : Slot) (child : Handle) :
    Outcome :=
  match container, child with
  | .list id, .node child => do
      let list ← require (store.list? id)
      let _ ← require (store.node? child)
      let edited ← liftEdit (list.setSlot slot child)
      return (container, store.setList id edited)
  | .block id, .note child =>
      match slot with
      | .name _ => .error .wrongSort
      | .index position => do
          let block ← require (store.block? id)
          let _ ← require (store.note? child)
          if inRange : position < block.size then
            return (container,
              store.setBlock id (block.set position child inRange))
          else
            .error (.edit (.indexOutOfRange position block.size))
  | .table id, .block child => do
      let table ← require (store.table? id)
      let _ ← require (store.block? child)
      let edited ← liftEdit (table.setSlot slot child)
      return (container, store.setTable id edited)
  | _, _ => .error .wrongSort

/-- Add a child at the end of a container.  Lists and tables name their
children, blocks do not. -/
def add (store : Store) (container : Handle) (name : Option String)
    (child : Handle) : Outcome :=
  match container, name, child with
  | .list id, some name, .node child => do
      let list ← require (store.list? id)
      let _ ← require (store.node? child)
      let edited ← liftEdit (list.add name child)
      return (container, store.setList id edited)
  | .block id, none, .note child => do
      let block ← require (store.block? id)
      let _ ← require (store.note? child)
      return (container, store.setBlock id (block.push child))
  | .table id, some name, .block child => do
      let table ← require (store.table? id)
      let _ ← require (store.block? child)
      let edited ← liftEdit (table.add name child)
      return (container, store.setTable id edited)
  | _, _, _ => .error .wrongSort

/-- Carry out one operation. -/
def apply (store : Store) : Operation → Outcome
  | .newConstant value =>
      store.create (Handle.node <$> newNode (.constant value.type value))
  | .newCall type tag => do
      requireTag tag
      store.create (Handle.node <$> newNode (.call type tag))
  | .newParameter type index =>
      store.create (Handle.node <$> newNode (.parameter type index))
  | .newTemporary type index =>
      store.create (Handle.node <$> newNode (.temporary type index))
  | .newDirectCall type tag arguments => do
      let list ← store.requireList arguments
      requireTag tag
      store.create (Handle.node <$> newNode (.directCall type tag list))
  | .newList => store.create (Handle.list <$> Store.newList {})
  | .newNote name arguments => do
      let list ← store.requireList arguments
      store.create (Handle.note <$> Store.newNote ⟨name, list⟩)
  | .newBlock => store.create (Handle.block <$> Store.newBlock #[])
  | .newTable => store.create (Handle.table <$> Store.newTable {})
  | .place tree => store.create tree.place
  | .clone source =>
      match source with
      | .node _ | .list _ => require (store.clone? source)
      | _ => .error .wrongSort
  | .decode form bytes => do
      let tree ← decodeTree form bytes
      store.create tree.place
  | .reload source => do
      let tree ← store.requireTree source
      let read ← decodeTree tree.form tree.encode
      store.create read.place
  | .setValue target value =>
      store.changeNode target fun
        | .constant type _ => .ok (.constant type value)
        | _ => .error .wrongSort
  | .setCall target tag =>
      store.changeNode target fun
        | .call type _ => do
            requireTag tag
            return .call type tag
        | _ => .error .wrongSort
  | .setDefinition target tag =>
      store.changeNode target fun
        | .directCall type _ list => do
            requireTag tag
            return .directCall type tag list
        | _ => .error .wrongSort
  | .setIndex target index =>
      store.changeNode target fun
        | .parameter type _ => .ok (.parameter type index)
        | .temporary type _ => .ok (.temporary type index)
        | _ => .error .wrongSort
  | .setName target name =>
      match target with
      | .note id => do
          let note ← require (store.note? id)
          return (target, store.setNote id { note with name := name })
      | _ => .error .wrongSort
  | .set container slot child => store.set container slot child
  | .add container name child => store.add container name child

/-- Carry out operations in order; a refused one changes nothing. -/
def run (store : Store) (operations : List Operation) : Store :=
  operations.foldl
    (fun store operation =>
      match store.apply operation with
      | .ok (_, changed) => changed
      | .error _ => store)
    store

end Store

end MaterialGraph
