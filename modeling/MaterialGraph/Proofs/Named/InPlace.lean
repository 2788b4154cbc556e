import MaterialGraph.Proofs.Named
import MaterialGraph.Store.Operation

/-!
# Editing a container in place

An edit in place writes its container piece by piece, and what has been written
is kept if the edit is refused further on.  The edits of a named container look
at all that can refuse them before they write anything.  In place they
therefore leave the container that the edit of a value answers, or the one that
was there before.
-/

namespace MaterialGraph

/-- An edit in place; what was written before a refusal is kept. -/
abbrev InPlace (container : Type) := EStateM EditError container

namespace Named

variable {α : Type}

def setInPlace (index : Nat) (child : α) : InPlace (Named α) Unit := do
  let size := (← get).children.size
  if index < size then
    modify fun named =>
      { named with children := named.children.setIfInBounds index child }
  else
    throw (.indexOutOfRange index size)

def setNamedInPlace (name : String) (child : α) : InPlace (Named α) Unit := do
  match (← get).indexOf? name with
  | some index => setInPlace index child
  | none => throw (.nameNotFound name)

def setSlotInPlace (slot : Slot) (child : α) : InPlace (Named α) Unit :=
  match slot with
  | .index position => setInPlace position child
  | .name name => setNamedInPlace name child

/-- The map, the names and the children are written one after the other. -/
def addInPlace (name : String) (child : α) : InPlace (Named α) Unit := do
  if (← get).positions.contains name then
    throw (.duplicateName name)
  else do
    let index := (← get).children.size
    modify fun named =>
      { named with positions := named.positions.insert name index }
    modify fun named => { named with names := named.names.push name }
    modify fun named => { named with children := named.children.push child }

end Named

/-- An edit in place does what the edit of a value does, and leaves the
container as it was if it is refused. -/
structure Mirrors {container : Type} (change : InPlace container Unit)
    (plain : container → Except EditError container) : Prop where
  edited : ∀ {found edited}, plain found = .ok edited →
    change found = .ok () edited
  refused : ∀ {found reason}, plain found = .error reason →
    change found = .error reason found

section InPlace

variable {α : Type}

theorem run_if {container : Type} (condition : Prop) [Decidable condition]
    (first second : InPlace container Unit) (found : container) :
    (if condition then first else second) found =
      if condition then first found else second found := by
  split <;> rfl

theorem Named.mirrors_setInPlace (index : Nat) (child : α) :
    Mirrors (Named.setInPlace index child) (Named.set · index child) where
  edited := by
    intro named edited replaced
    obtain ⟨inRange, rfl⟩ := Named.set_eq_ok_iff.mp replaced
    refine (run_if _ _ _ named).trans ((if_pos inRange).trans ?_)
    apply congrArg (EStateM.Result.ok ())
    simp [Named.withChildren, Array.setIfInBounds, inRange]
  refused := by
    intro named reason refused
    unfold Named.set at refused
    split at refused
    · cases refused
    · rename_i outside
      cases refused
      exact (run_if _ _ _ named).trans (if_neg outside)

theorem Named.mirrors_setSlotInPlace (slot : Slot) (child : α) :
    Mirrors (Named.setSlotInPlace slot child) (Named.setSlot · slot child) := by
  cases slot with
  | index position => exact mirrors_setInPlace position child
  | name name =>
      have located : ∀ named : Named α, Named.setNamedInPlace name child named =
          (match named.indexOf? name with
            | some index => Named.setInPlace index child
            | none => throw (.nameNotFound name) : InPlace (Named α) Unit)
            named := fun _ => rfl
      constructor
      · intro named edited replaced
        simp only [Named.setSlot, Named.setNamed] at replaced
        rw [Named.setSlotInPlace, located]
        cases found : named.indexOf? name with
        | none =>
            rw [found] at replaced
            cases replaced
        | some index =>
            rw [found] at replaced
            exact (mirrors_setInPlace index child).edited replaced
      · intro named reason refused
        simp only [Named.setSlot, Named.setNamed] at refused
        rw [Named.setSlotInPlace, located]
        cases found : named.indexOf? name with
        | none =>
            rw [found] at refused
            cases refused
            rfl
        | some index =>
            rw [found] at refused
            exact (mirrors_setInPlace index child).refused refused

theorem Named.mirrors_addInPlace (name : String) (child : α) :
    Mirrors (Named.addInPlace name child) (Named.add · name child) where
  edited := by
    intro named edited added
    unfold Named.add at added
    split at added
    · cases added
    · rename_i absent
      cases added
      exact (run_if _ _ _ named).trans (if_neg absent)
  refused := by
    intro named reason refused
    unfold Named.add at refused
    split at refused
    · rename_i present
      cases refused
      exact (run_if _ _ _ named).trans (if_pos present)
    · cases refused

end InPlace

end MaterialGraph
