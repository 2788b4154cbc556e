import MaterialGraph.Expression.Basic

/-!
# Changing a tree at some of its places

A place of a tree is a path: the numbers of the parts that are taken on the way
down from the root.  A change that keeps the form of trees is applied at all
places of a given set, from the bottom upward, and nowhere else.
-/

namespace MaterialGraph

/-- A change of trees that keeps their form. -/
structure TreeEdit where
  expression : Expression → Expression := id
  arguments : Arguments → Arguments := id
  annotationCall : AnnotationCall → AnnotationCall := id
  annotationBlock : AnnotationBlock → AnnotationBlock := id
  annotationTable : AnnotationTable → AnnotationTable := id

/-- A set of places, given by their paths. -/
abbrev Places := List Nat → Bool

namespace Places

/-- The places that are below the part with a given number, as places of that
part. -/
def below (places : Places) (index : Nat) : Places :=
  fun path => places (index :: path)

/-- Apply a change if the root is among the places. -/
def atRoot {α : Type} (places : Places) (change : α → α) (whole : α) : α :=
  if places [] then change whole else whole

/-- There are no places. -/
def IsEmpty (places : Places) : Prop :=
  ∀ path, places path = false

theorem IsEmpty.below {places : Places} (empty : places.IsEmpty) (index : Nat) :
    (places.below index).IsEmpty :=
  fun path => empty (index :: path)

theorem atRoot_eq_self {α : Type} {places : Places}
    (elsewhere : places [] = false) (change : α → α) (whole : α) :
    places.atRoot change whole = whole := by
  rw [atRoot, elsewhere]
  rfl

theorem atRoot_eq_change {α : Type} {places : Places} (here : places [] = true)
    (change : α → α) (whole : α) :
    places.atRoot change whole = change whole := by
  rw [atRoot, here]
  rfl

end Places

namespace Expression

mutual

/-- The expression with a change applied at the given places. -/
def editAt (edit : TreeEdit) (places : Places) : Expression → Expression
  | constant type value =>
      places.atRoot edit.expression (constant type value)
  | call type tag => places.atRoot edit.expression (call type tag)
  | parameter type index => places.atRoot edit.expression (parameter type index)
  | directCall type tag arguments =>
      places.atRoot edit.expression <| directCall type tag <|
        (places.below 0).atRoot edit.arguments
          (editEntriesAt edit (places.below 0) 0 arguments)
  | temporary type index => places.atRoot edit.expression (temporary type index)

/-- The entries from a given number on, with their expressions changed. -/
def editEntriesAt (edit : TreeEdit) (places : Places) :
    (index : Nat) → Arguments → Arguments
  | _, [] => []
  | index, (name, expression) :: rest =>
      (name, expression.editAt edit (places.below index)) ::
        editEntriesAt edit places (index + 1) rest

end

end Expression

def Arguments.editAt (edit : TreeEdit) (places : Places)
    (arguments : Arguments) : Arguments :=
  places.atRoot edit.arguments (Expression.editEntriesAt edit places 0 arguments)

def AnnotationCall.editAt (edit : TreeEdit) (places : Places)
    (call : AnnotationCall) : AnnotationCall :=
  places.atRoot edit.annotationCall
    ⟨call.name, Arguments.editAt edit (places.below 0) call.arguments⟩

def AnnotationBlock.editAt (edit : TreeEdit) (places : Places)
    (block : AnnotationBlock) : AnnotationBlock :=
  places.atRoot edit.annotationBlock
    (block.mapIdx fun index call => call.editAt edit (places.below index))

def AnnotationTable.editAt (edit : TreeEdit) (places : Places)
    (table : AnnotationTable) : AnnotationTable :=
  places.atRoot edit.annotationTable
    (table.mapIdx fun index entry =>
      (entry.1, AnnotationBlock.editAt edit (places.below index) entry.2))

namespace Tree

/-- The tree with a change applied at the given places. -/
def editAt (edit : TreeEdit) (places : Places) : Tree → Tree
  | expression root => expression (root.editAt edit places)
  | arguments entries => arguments (Arguments.editAt edit places entries)
  | annotationCall call => annotationCall (call.editAt edit places)
  | annotationBlock calls =>
      annotationBlock (AnnotationBlock.editAt edit places calls)
  | annotationTable entries =>
      annotationTable (AnnotationTable.editAt edit places entries)

/-- The tree changed at its root. -/
def edit (change : TreeEdit) : Tree → Tree
  | expression root => expression (change.expression root)
  | arguments entries => arguments (change.arguments entries)
  | annotationCall call => annotationCall (change.annotationCall call)
  | annotationBlock calls => annotationBlock (change.annotationBlock calls)
  | annotationTable entries => annotationTable (change.annotationTable entries)

end Tree

section Places

variable {edit : TreeEdit} {places : Places}

namespace Expression

theorem editEntriesAt_eq_mapIdx (index : Nat) (arguments : Arguments) :
    editEntriesAt edit places index arguments =
      arguments.mapIdx fun position entry =>
        (entry.1, entry.2.editAt edit (places.below (index + position))) := by
  induction arguments generalizing index with
  | nil => rfl
  | cons entry rest induction =>
      obtain ⟨name, expression⟩ := entry
      rw [editEntriesAt, induction, List.mapIdx_cons]
      simp only [Nat.add_zero, Nat.add_assoc, Nat.add_comm 1]

mutual

theorem editAt_of_isEmpty (expression : Expression) {places : Places}
    (empty : places.IsEmpty) : expression.editAt edit places = expression := by
  cases expression with
  | constant | call | parameter | temporary =>
      exact Places.atRoot_eq_self (empty []) _ _
  | directCall type tag arguments =>
      rw [editAt, Places.atRoot_eq_self (empty []),
        Places.atRoot_eq_self (empty [0]),
        editEntriesAt_eq_self arguments 0 (empty.below 0).below]

theorem editEntriesAt_eq_self (arguments : Arguments) (index : Nat)
    {places : Places} (noneBelow : ∀ index, (places.below index).IsEmpty) :
    editEntriesAt edit places index arguments = arguments := by
  cases arguments with
  | nil => rfl
  | cons entry rest =>
      obtain ⟨name, expression⟩ := entry
      rw [editEntriesAt, editAt_of_isEmpty expression (noneBelow index),
        editEntriesAt_eq_self rest (index + 1) noneBelow]

end

end Expression

theorem Arguments.editAt_of_isEmpty (arguments : Arguments)
    (empty : places.IsEmpty) :
    Arguments.editAt edit places arguments = arguments := by
  rw [Arguments.editAt, Places.atRoot_eq_self (empty []),
    Expression.editEntriesAt_eq_self arguments 0 empty.below]

theorem AnnotationCall.editAt_of_isEmpty (call : AnnotationCall)
    (empty : places.IsEmpty) : call.editAt edit places = call := by
  rw [AnnotationCall.editAt, Places.atRoot_eq_self (empty []),
    Arguments.editAt_of_isEmpty call.arguments (empty.below 0)]

theorem AnnotationBlock.mapIdx_editAt_of_isEmpty
    (noneBelow : ∀ index, (places.below index).IsEmpty)
    (block : AnnotationBlock) :
    (block.mapIdx fun index call => call.editAt edit (places.below index)) =
      block := by
  refine List.mapIdx_eq_iff.mpr fun index => ?_
  simp [AnnotationCall.editAt_of_isEmpty _ (noneBelow index)]

theorem AnnotationBlock.editAt_of_isEmpty (block : AnnotationBlock)
    (empty : places.IsEmpty) :
    AnnotationBlock.editAt edit places block = block := by
  rw [AnnotationBlock.editAt, Places.atRoot_eq_self (empty []),
    AnnotationBlock.mapIdx_editAt_of_isEmpty empty.below]

theorem AnnotationTable.mapIdx_editAt_of_isEmpty
    (noneBelow : ∀ index, (places.below index).IsEmpty)
    (table : AnnotationTable) :
    (table.mapIdx fun index entry =>
      (entry.1, AnnotationBlock.editAt edit (places.below index) entry.2)) =
      table := by
  refine List.mapIdx_eq_iff.mpr fun index => ?_
  simp [AnnotationBlock.editAt_of_isEmpty _ (noneBelow index)]

/-- Below the root nothing is changed if the root is the only place. -/
theorem Tree.editAt_eq_edit (tree : Tree) (here : places [] = true)
    (noneBelow : ∀ index, (places.below index).IsEmpty) :
    tree.editAt edit places = tree.edit edit := by
  cases tree with
  | expression root =>
      cases root with
      | constant | call | parameter | temporary =>
          exact congrArg Tree.expression (Places.atRoot_eq_change here _ _)
      | directCall type tag arguments =>
          rw [Tree.editAt, Expression.editAt, Places.atRoot_eq_change here,
            Places.atRoot_eq_self (noneBelow 0 []),
            Expression.editEntriesAt_eq_self arguments 0 (noneBelow 0).below]
          rfl
  | arguments entries =>
      rw [Tree.editAt, Arguments.editAt, Places.atRoot_eq_change here,
        Expression.editEntriesAt_eq_self entries 0 noneBelow]
      rfl
  | annotationCall call =>
      rw [Tree.editAt, AnnotationCall.editAt, Places.atRoot_eq_change here,
        Arguments.editAt_of_isEmpty call.arguments (noneBelow 0)]
      rfl
  | annotationBlock calls =>
      rw [Tree.editAt, AnnotationBlock.editAt, Places.atRoot_eq_change here,
        AnnotationBlock.mapIdx_editAt_of_isEmpty noneBelow]
      rfl
  | annotationTable entries =>
      rw [Tree.editAt, AnnotationTable.editAt, Places.atRoot_eq_change here,
        AnnotationTable.mapIdx_editAt_of_isEmpty noneBelow]
      rfl

end Places

end MaterialGraph
