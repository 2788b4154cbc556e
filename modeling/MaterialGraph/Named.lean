import MaterialGraph.EditError
import Std.Data.HashMap

/-!
# Ordered containers with named entries

Entries keep the order in which they were added, which is also the order of
their indices.  A map from names to indices finds an entry by its name.  Names
are distinct and stay where they are; only the child of an entry can be
replaced.
-/

namespace MaterialGraph

/-- Names, the index of each name, and the children in order. -/
structure Named (α : Type) where
  names : Array String := #[]
  positions : Std.HashMap String Nat := {}
  children : Array α := #[]

namespace Named

variable {α β : Type}

instance : Inhabited (Named α) := ⟨{}⟩

def size (named : Named α) : Nat :=
  named.children.size

def isEmpty (named : Named α) : Bool :=
  named.size == 0

/-- The index of the entry with the given name. -/
def indexOf? (named : Named α) (name : String) : Option Nat :=
  named.positions[name]?

/-- The name of the entry at the given index. -/
def nameAt? (named : Named α) (index : Nat) : Option String :=
  named.names[index]?

/-- The child at the given index. -/
def get? (named : Named α) (index : Nat) : Option α :=
  named.children[index]?

/-- The child of the entry with the given name. -/
def find? (named : Named α) (name : String) : Option α :=
  (named.indexOf? name).bind named.get?

/-- Replace the child at an index. -/
def set (named : Named α) (index : Nat) (child : α) :
    Except EditError (Named α) :=
  if inRange : index < named.children.size then
    .ok { named with children := named.children.set index child inRange }
  else
    .error (.indexOutOfRange index named.size)

/-- Replace the child of the entry with a given name. -/
def setNamed (named : Named α) (name : String) (child : α) :
    Except EditError (Named α) :=
  match named.indexOf? name with
  | some index => named.set index child
  | none => .error (.nameNotFound name)

/-- Add an entry at the end.  Its name must be new. -/
def add (named : Named α) (name : String) (child : α) :
    Except EditError (Named α) :=
  if named.positions.contains name then
    .error (.duplicateName name)
  else
    .ok
      { names := named.names.push name
        positions := named.positions.insert name named.children.size
        children := named.children.push child }

/-- The entries in order. -/
def toList (named : Named α) : List (String × α) :=
  named.names.toList.zip named.children.toList

/-- The same names in the same order with other children. -/
def withChildren (named : Named α) (children : Array β) : Named β :=
  { names := named.names, positions := named.positions, children := children }

/-- Every child is replaced by what is made from it, one after the other. -/
def mapM {m : Type → Type} [Monad m] (change : α → m β) (named : Named α) :
    m (Named β) := do
  let children ← named.children.mapM change
  return named.withChildren children

/-- The container with the given entries.  Names are expected to be distinct;
an entry whose name occurred before is left out. -/
def ofList (entries : List (String × α)) : Named α :=
  entries.foldl
    (fun named entry =>
      match named.add entry.1 entry.2 with
      | .ok extended => extended
      | .error _ => named)
    {}

end Named

end MaterialGraph
