import MaterialGraph.Proofs.Store.Change

/-!
# Properties of all objects

A property of all objects of a store is kept when an object with the property
is written.  Changes keep it if an object does not lose it by being changed.
Placing a tree keeps it if the objects that trees are made of have it, where for
calls this may hang on the tag.
-/

namespace MaterialGraph

/-- The target of a call. -/
def Node.tag? : Node → Option Tag
  | call _ tag => some tag
  | directCall _ tag _ => some tag
  | _ => none

namespace Store

/-- All objects of the store have a property. -/
def Forall (store : Store) (property : Object → Prop) : Prop :=
  ∀ ⦃handle : Handle⦄ ⦃object : Object⦄,
    store.object? handle = some object → property object

/-- The objects that trees are made of have a property, if their tags meet a
condition. -/
structure Suits (property : Object → Prop) (allowed : Tag → Prop) : Prop where
  node : ∀ node : Node, (∀ tag, node.tag? = some tag → allowed tag) →
    property (.node node)
  list : ∀ entries, property (.list (.ofList entries))
  note : ∀ note, property (.note note)
  block : ∀ notes, property (.block notes)
  table : ∀ entries, property (.table (.ofList entries))

/-- Objects do not lose a property in any of the ways in which objects are
changed. -/
structure Withstands (property : Object → Prop) : Prop where
  node : ∀ {node edited : Node}, node.Edit edited → property (.node node) →
    property (.node edited)
  list : ∀ {list edited : Named NodeId} {child : NodeId},
    list.Edit child edited → property (.list list) → property (.list edited)
  note : ∀ {note edited : Note}, property (.note note) →
    property (.note edited)
  block : ∀ {notes edited : Array NoteId}, property (.block notes) →
    property (.block edited)
  table : ∀ {table edited : Named BlockId} {child : BlockId},
    table.Edit child edited → property (.table table) →
      property (.table edited)

theorem forall_empty (property : Object → Prop) : Forall {} property := by
  intro handle object found
  cases handle <;> simp [object?, node?, list?, note?, block?, table?] at found

section Updates

variable {store changed : Store} {handle : Handle} {object : Object}
  {property : Object → Prop}

theorem Updates.forall (updates : store.Updates handle object changed)
    (all : store.Forall property) (holds : property object) :
    changed.Forall property := by
  intro other found there
  by_cases same : other = handle
  · subst same
    rw [updates.object?_self, Option.some.injEq] at there
    exact there ▸ holds
  · rw [updates.object?_other same] at there
    exact all there

theorem Mutation.forall {child? : Option Handle}
    (mutation : store.Mutation handle child? changed)
    (withstands : Withstands property) (all : store.Forall property) :
    changed.Forall property := by
  cases mutation with
  | node found edit =>
      have before := all (object?_node_eq_some_iff.mpr found)
      exact (updates_setNode store found _).forall all
        (withstands.node edit before)
  | note found =>
      have before := all (object?_note_eq_some_iff.mpr found)
      exact (updates_setNote store found _).forall all (withstands.note before)
  | list found _ edit =>
      have before := all (object?_list_eq_some_iff.mpr found)
      exact (updates_setList store found _).forall all
        (withstands.list edit before)
  | replacedNote found | addedNote found =>
      have before := all (object?_block_eq_some_iff.mpr found)
      exact (updates_setBlock store found _).forall all
        (withstands.block before)
  | table found _ edit =>
      have before := all (object?_table_eq_some_iff.mpr found)
      exact (updates_setTable store found _).forall all
        (withstands.table edit before)

end Updates

section Placement

variable {property : Object → Prop} {allowed : Tag → Prop}

mutual

theorem forall_placeExpression (suits : Suits property allowed)
    (expression : Expression) (calls : Nat) {store : Store}
    (tags : ∀ tag, .tag tag ∈ expression.parts calls → allowed tag)
    (all : store.Forall property) :
    (expression.place.run store).2.Forall property := by
  cases expression with
  | constant | parameter | temporary =>
      exact (adds_newNode _ _).updates.forall all (suits.node _ nofun)
  | call type tag =>
      refine (adds_newNode _ _).updates.forall all (suits.node _ ?_)
      rintro _ ⟨⟩
      exact tags tag (by simp [Expression.parts])
  | directCall type tag arguments =>
      have entries := forall_placeEntries suits arguments (calls + 1)
        (fun inner member => tags inner (by simp [Expression.parts, member])) all
      have list := (adds_newList _ _).updates.forall entries
        (suits.list ((Expression.placeEntries arguments).run store).1)
      refine (adds_newNode _ _).updates.forall list (suits.node _ ?_)
      rintro _ ⟨⟩
      exact tags tag (by simp [Expression.parts])

theorem forall_placeEntries (suits : Suits property allowed)
    (arguments : Arguments) (calls : Nat) {store : Store}
    (tags : ∀ tag, .tag tag ∈ Expression.entryParts calls arguments →
      allowed tag)
    (all : store.Forall property) :
    ((Expression.placeEntries arguments).run store).2.Forall property := by
  cases arguments with
  | nil => exact all
  | cons entry rest =>
      obtain ⟨name, expression⟩ := entry
      have child := forall_placeExpression suits expression calls
        (fun tag member => tags tag (by simp [Expression.entryParts, member]))
        all
      exact forall_placeEntries suits rest calls
        (fun tag member => tags tag (by simp [Expression.entryParts, member]))
        child

end

theorem forall_placeArguments (suits : Suits property allowed)
    (arguments : Arguments) {store : Store}
    (tags : ∀ tag, .tag tag ∈ Arguments.parts arguments → allowed tag)
    (all : store.Forall property) :
    ((Arguments.place arguments).run store).2.Forall property := by
  have entries := forall_placeEntries suits arguments 0
    (fun tag member => tags tag (by simp [Arguments.parts, member])) all
  exact (adds_newList _ _).updates.forall entries (suits.list _)

theorem forall_placeCall (suits : Suits property allowed)
    (call : AnnotationCall) {store : Store}
    (tags : ∀ tag, .tag tag ∈ call.parts → allowed tag)
    (all : store.Forall property) :
    (call.place.run store).2.Forall property := by
  have placed := forall_placeArguments suits call.arguments
    (fun tag member => tags tag (by simp [AnnotationCall.parts, member])) all
  exact (adds_newNote _ _).updates.forall placed (suits.note _)

theorem forall_placeBlock (suits : Suits property allowed)
    (block : AnnotationBlock) {store : Store}
    (tags : ∀ tag, .tag tag ∈ AnnotationBlock.parts block → allowed tag)
    (all : store.Forall property) :
    ((AnnotationBlock.place block).run store).2.Forall property := by
  have calls : ((AnnotationBlock.placeCalls block).run store).2.Forall
      property := by
    simp only [AnnotationBlock.parts, List.mem_cons, reduceCtorEq,
      false_or] at tags
    induction block generalizing store with
    | nil => exact all
    | cons call rest induction =>
        have note := forall_placeCall suits call
          (fun tag member => tags tag (by simp [member])) all
        exact induction note fun tag member => tags tag
          (by rw [List.flatMap_cons]; exact List.mem_append_right _ member)
  exact (adds_newBlock _ _).updates.forall calls (suits.block _)

theorem forall_placeTable (suits : Suits property allowed)
    (table : AnnotationTable) {store : Store}
    (tags : ∀ tag, .tag tag ∈ AnnotationTable.parts table → allowed tag)
    (all : store.Forall property) :
    ((AnnotationTable.place table).run store).2.Forall property := by
  have entries : ((AnnotationTable.placeEntries table).run store).2.Forall
      property := by
    simp only [AnnotationTable.parts, List.mem_cons, reduceCtorEq,
      false_or] at tags
    induction table generalizing store with
    | nil => exact all
    | cons entry rest induction =>
        have block := forall_placeBlock suits entry.2
          (fun tag member => tags tag (by simp [member])) all
        exact induction block fun tag member => tags tag
          (by rw [List.flatMap_cons]; exact List.mem_append_right _ member)
  exact (adds_newTable _ _).updates.forall entries (suits.table _)

/-- What the objects that a tree is made of have is kept when it is placed. -/
theorem forall_place (suits : Suits property allowed) {tree : Tree}
    {store : Store} (tags : ∀ tag, .tag tag ∈ tree.parts → allowed tag)
    (all : store.Forall property) :
    (tree.place.run store).2.Forall property := by
  cases tree with
  | expression root => exact forall_placeExpression suits root 0 tags all
  | arguments entries => exact forall_placeArguments suits entries tags all
  | annotationCall call => exact forall_placeCall suits call tags all
  | annotationBlock calls => exact forall_placeBlock suits calls tags all
  | annotationTable entries => exact forall_placeTable suits entries tags all

end Placement

end Store

end MaterialGraph
