import MaterialGraph.Store.Basic

/-!
# Cloning shared objects

A clone is made of new objects.  An object that is held twice is cloned twice,
once for every path that leads to it.  Types and values are not objects, and
the clone has the same ones: whatever they are, they are handed on.

On a path that does not come back to an expression there are at most as many
expressions as the store holds, which bounds the recursion.  An object that
owns itself has no clone.
-/

namespace MaterialGraph

/-- Monads in which there may be no result. -/
class MonadFail (m : Type → Type) where
  fail {α : Type} : m α

instance {State : Type} : MonadFail (StateT State Option) where
  fail := fun _ => none

@[simp] theorem run_fail {State α : Type} (state : State) :
    (MonadFail.fail : StateT State Option α).run state = none :=
  rfl

namespace Store

open MonadFail

section Recursion

variable {Types Values : Type} {m : Type → Type} [Monad m]
  [MonadState (Store Types Values) m] [MonadFail m]

/-- A construction that cannot fail, as a step of one that can. -/
def make {α : Type} (construction : StateM (Store Types Values) α) : m α :=
  modifyGet construction.run

/-- A new list with the same names, given how its expressions are cloned. -/
def cloneList (cloneNode : NodeId → m NodeId) (id : ListId) : m ListId := do
  match (← get).list? id with
  | some list => do
      let copy ← list.mapM cloneNode
      make (newList copy)
  | none => fail

/-- A new expression, if no path from the one that is cloned has more than
`length` expressions. -/
def cloneNode : (length : Nat) → NodeId → m NodeId
  | 0, _ => fail
  | length + 1, id => do
      match (← get).node? id with
      | some (.directCall type tag list) => do
          let copy ← cloneList (cloneNode length) list
          make (newNode (.directCall type tag copy))
      | some node => make (newNode node)
      | none => fail

/-- A clone of an expression or of a list. -/
def clone : Handle → m Handle
  | .node id => do
      let length := (← get).nodes.size
      Handle.node <$> cloneNode length id
  | .list id => do
      let length := (← get).nodes.size
      Handle.list <$> cloneList (cloneNode length) id
  | _ => fail

end Recursion

/-- The clone of an object and the store with it; a clone that fails leaves
nothing. -/
def clone? {Types Values : Type} (store : Store Types Values)
    (source : Handle) : Option (Handle × Store Types Values) :=
  (clone source : StateT (Store Types Values) Option Handle).run store

end Store

end MaterialGraph
