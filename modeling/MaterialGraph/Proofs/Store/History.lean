import MaterialGraph.Proofs.Store.Change
import MaterialGraph.Store.Query

/-!
# What stays as it is

An expression keeps its kind and its type for ever, and what has arguments keeps
the list that they are in.  A name keeps its position in a container, and no
container loses entries.  A creation leaves all objects alone, and a mutation
writes one object that keeps all of this; so every run does.
-/

namespace MaterialGraph

/-- The list that the arguments of an expression are in, if it has any. -/
def Node.arguments? : Node → Option ListId
  | directCall _ _ arguments => some arguments
  | _ => none

/-- The other expression has the same kind, type and list of arguments. -/
structure Node.Keeps (node later : Node) : Prop where
  kind : later.kind = node.kind
  type : later.type = node.type
  arguments : later.arguments? = node.arguments?

theorem Node.Edit.keeps {node edited : Node} (edit : node.Edit edited) :
    node.Keeps edited := by
  cases edit <;> exact ⟨rfl, rfl, rfl⟩

namespace Named

variable {α : Type} {named middle later : Named α}

/-- The other container has the same names first and is not smaller. -/
structure Keeps (named later : Named α) : Prop where
  names : named.names.toList <+: later.names.toList
  size : named.size ≤ later.size

namespace Keeps

theorem refl (named : Named α) : named.Keeps named :=
  ⟨List.prefix_rfl, Nat.le_refl _⟩

theorem trans (first : named.Keeps middle) (second : middle.Keeps later) :
    named.Keeps later :=
  ⟨first.names.trans second.names, Nat.le_trans first.size second.size⟩

theorem nameAt? (keeps : named.Keeps later) {index : Nat} {name : String}
    (found : named.nameAt? index = some name) :
    later.nameAt? index = some name := by
  obtain ⟨others, same⟩ := keeps.names
  have there : named.names.toList[index]? = some name :=
    Array.getElem?_toList.trans found
  have inside := (List.getElem?_eq_some_iff.mp there).1
  rw [Named.nameAt?, ← Array.getElem?_toList, ← same,
    List.getElem?_append_left inside, there]

end Keeps

theorem Edit.keeps {child : α} {edited : Named α}
    (edit : named.Edit child edited) : named.Keeps edited := by
  cases edit with
  | set replaced =>
      obtain ⟨inRange, rfl⟩ := set_eq_ok_iff.mp replaced
      refine ⟨List.prefix_rfl, ?_⟩
      simp [Named.size, withChildren]
  | add added =>
      unfold Named.add at added
      split at added
      · cases added
      · cases added
        refine ⟨?_, ?_⟩
        · rw [Array.toList_push]
          exact List.prefix_append _ _
        · simp [Named.size]

end Named

/-- What an object keeps however it is changed. -/
inductive Object.Keeps : Object → Object → Prop
  | node {node later : Node} (keeps : node.Keeps later) :
      Keeps (.node node) (.node later)
  | list {list later : Named NodeId} (keeps : list.Keeps later) :
      Keeps (.list list) (.list later)
  | note {note later : Note} (arguments : later.arguments = note.arguments) :
      Keeps (.note note) (.note later)
  | block {notes later : Array NoteId} (size : notes.size ≤ later.size) :
      Keeps (.block notes) (.block later)
  | table {table later : Named BlockId} (keeps : table.Keeps later) :
      Keeps (.table table) (.table later)

namespace Object

/-- The list that the arguments of an object are in, if it has any. -/
def arguments? : Object → Option ListId
  | node held => held.arguments?
  | note held => some held.arguments
  | _ => none

/-- The name at a position, if the object names what it holds. -/
def nameAt? (index : Nat) : Object → Option String
  | list named => named.nameAt? index
  | table named => named.nameAt? index
  | _ => none

/-- The position of a name, if the object names what it holds. -/
def indexOf? (name : String) : Object → Option Nat
  | list named => named.indexOf? name
  | table named => named.indexOf? name
  | _ => none

/-- How many objects a container holds. -/
def size? : Object → Option Nat
  | list named => some named.size
  | block notes => some notes.size
  | table named => some named.size
  | _ => none

theorem Consistent.indexOf?_eq_some_iff {object : Object}
    (consistent : object.Consistent) {name : String} {index : Nat} :
    object.indexOf? name = some index ↔ object.nameAt? index = some name := by
  cases object with
  | list named => exact Named.Consistent.indexOf?_eq_some_iff consistent
  | table named => exact Named.Consistent.indexOf?_eq_some_iff consistent
  | node | note | block => simp [indexOf?, nameAt?]

end Object

namespace Object.Keeps

theorem refl (object : Object) : object.Keeps object := by
  cases object with
  | node => exact .node ⟨rfl, rfl, rfl⟩
  | list named => exact .list (.refl named)
  | note => exact .note rfl
  | block => exact .block (Nat.le_refl _)
  | table named => exact .table (.refl named)

theorem trans {object middle later : Object} (first : object.Keeps middle)
    (second : middle.Keeps later) : object.Keeps later := by
  cases first with
  | node keeps =>
      cases second with
      | node keeps' =>
          exact .node ⟨keeps'.kind.trans keeps.kind,
            keeps'.type.trans keeps.type,
            keeps'.arguments.trans keeps.arguments⟩
  | list keeps =>
      cases second with
      | list keeps' => exact .list (keeps.trans keeps')
  | note arguments =>
      cases second with
      | note arguments' => exact .note (arguments'.trans arguments)
  | block size =>
      cases second with
      | block size' => exact .block (Nat.le_trans size size')
  | table keeps =>
      cases second with
      | table keeps' => exact .table (keeps.trans keeps')

variable {object later : Object}

theorem arguments? (keeps : object.Keeps later) :
    later.arguments? = object.arguments? := by
  cases keeps with
  | node keeps => exact keeps.arguments
  | note arguments => exact congrArg some arguments
  | list | block | table => rfl

theorem nameAt? (keeps : object.Keeps later) {index : Nat} {name : String}
    (found : object.nameAt? index = some name) :
    later.nameAt? index = some name := by
  cases keeps with
  | list keeps => exact keeps.nameAt? found
  | table keeps => exact keeps.nameAt? found
  | node | note | block => cases found

theorem exists_size? (keeps : object.Keeps later) {size : Nat}
    (found : object.size? = some size) :
    ∃ size', later.size? = some size' ∧ size ≤ size' := by
  cases keeps with
  | list keeps =>
      cases found
      exact ⟨_, rfl, keeps.size⟩
  | block notLess =>
      cases found
      exact ⟨_, rfl, notLess⟩
  | table keeps =>
      cases found
      exact ⟨_, rfl, keeps.size⟩
  | node | note => cases found

end Object.Keeps

namespace Operation

/-- The kind and the type of the expression that an operation makes, if the
operation says what they are. -/
def identity? : Operation → Option (ExpressionKind × ValueType)
  | newConstant value => some (.constant, value.type)
  | newCall type _ => some (.call, type)
  | newParameter type _ => some (.parameter, type)
  | newTemporary type _ => some (.temporary, type)
  | newDirectCall type _ _ => some (.directCall, type)
  | _ => none

/-- The list of arguments that an operation gives to what it makes. -/
def arguments? : Operation → Option Handle
  | newDirectCall _ _ arguments => some arguments
  | newNote _ arguments => some arguments
  | _ => none

end Operation

namespace Store

/-- Every object of one store is in the other, with all that it keeps. -/
def Keeps (store later : Store) : Prop :=
  ∀ ⦃handle : Handle⦄ ⦃object : Object⦄, store.object? handle = some object →
    ∃ object', later.object? handle = some object' ∧ object.Keeps object'

section Steps

variable {store middle changed later : Store} {handle : Handle}

theorem Keeps.refl (store : Store) : store.Keeps store :=
  fun _ object found => ⟨object, found, .refl object⟩

theorem Keeps.trans (first : store.Keeps middle) (second : middle.Keeps later) :
    store.Keeps later := by
  intro handle object found
  obtain ⟨object', found', keeps⟩ := first found
  obtain ⟨object'', found'', keeps'⟩ := second found'
  exact ⟨object'', found'', keeps.trans keeps'⟩

theorem GrowsTo.keeps (grows : store.GrowsTo changed) : store.Keeps changed :=
  fun _ object found => ⟨object, grows.object? found, .refl object⟩

theorem Updates.keeps {object edited : Object}
    (updates : store.Updates handle edited changed)
    (found : store.object? handle = some object) (keeps : object.Keeps edited) :
    store.Keeps changed := by
  intro other object' found'
  by_cases same : other = handle
  · subst same
    rw [found, Option.some.injEq] at found'
    subst found'
    exact ⟨edited, updates.object?_self, keeps⟩
  · exact ⟨object', (updates.object?_other same).trans found', .refl object'⟩

theorem Mutation.keeps {child? : Option Handle}
    (mutation : store.Mutation handle child? changed) :
    store.Keeps changed := by
  cases mutation with
  | node found edit =>
      exact (updates_setNode store found _).keeps
        (object?_node_eq_some_iff.mpr found) (.node edit.keeps)
  | note found =>
      exact (updates_setNote store found _).keeps
        (object?_note_eq_some_iff.mpr found) (.note rfl)
  | list found _ edit =>
      exact (updates_setList store found _).keeps
        (object?_list_eq_some_iff.mpr found) (.list edit.keeps)
  | replacedNote found =>
      exact (updates_setBlock store found _).keeps
        (object?_block_eq_some_iff.mpr found) (.block (by simp))
  | addedNote found =>
      exact (updates_setBlock store found _).keeps
        (object?_block_eq_some_iff.mpr found) (.block (by simp))
  | table found _ edit =>
      exact (updates_setTable store found _).keeps
        (object?_table_eq_some_iff.mpr found) (.table edit.keeps)

theorem Change.keeps {operation : Operation}
    (change : store.Change operation handle changed) : store.Keeps changed := by
  cases change with
  | creation _ creation => exact creation.addsTo.grows.keeps
  | mutation _ mutation => exact mutation.keeps

/-- Whatever is done, objects keep what they have to keep. -/
theorem keeps_run (store : Store) (operations : List Operation) :
    store.Keeps (store.run operations) :=
  run_preserves (fun keeps change => keeps.trans change.keeps) (.refl store)
    operations

end Steps

section Queries

variable {store later : Store} {handle : Handle}

theorem argumentsOf_eq_ok_iff {arguments : Handle} :
    store.argumentsOf handle = .ok arguments ↔
      ∃ object, store.object? handle = some object ∧
        object.arguments?.map Handle.list = some arguments := by
  cases handle with
  | node id =>
      cases found : store.node? id with
      | none =>
          simp [argumentsOf, requireNode, object?, found, bind, Except.bind]
      | some node =>
          cases node <;>
            simp [argumentsOf, requireNode, object?, found, bind, Except.bind,
              pure, Except.pure, Object.arguments?, Node.arguments?]
  | note id =>
      cases found : store.note? id <;>
        simp [argumentsOf, object?, found, require, bind, Except.bind, pure,
          Except.pure, Object.arguments?]
  | list id =>
      cases found : store.list? id <;>
        simp [argumentsOf, requireNode, object?, found, bind, Except.bind,
          Object.arguments?]
  | block id =>
      cases found : store.block? id <;>
        simp [argumentsOf, requireNode, object?, found, bind, Except.bind,
          Object.arguments?]
  | table id =>
      cases found : store.table? id <;>
        simp [argumentsOf, requireNode, object?, found, bind, Except.bind,
          Object.arguments?]

theorem nameAt_eq_ok_iff {name : String} {index : Nat} :
    store.nameAt handle index = .ok (some name) ↔
      ∃ object, store.object? handle = some object ∧
        object.nameAt? index = some name := by
  cases handle with
  | list id =>
      cases found : store.list? id <;>
        simp [nameAt, object?, found, require, bind, Except.bind, pure,
          Except.pure, Object.nameAt?]
  | table id =>
      cases found : store.table? id <;>
        simp [nameAt, object?, found, require, bind, Except.bind, pure,
          Except.pure, Object.nameAt?]
  | node | note | block => simp [nameAt, object?, Object.nameAt?]

theorem indexOf_eq_ok_iff {name : String} {index : Nat} :
    store.indexOf handle name = .ok (some index) ↔
      ∃ object, store.object? handle = some object ∧
        object.indexOf? name = some index := by
  cases handle with
  | list id =>
      cases found : store.list? id <;>
        simp [indexOf, object?, found, require, bind, Except.bind, pure,
          Except.pure, Object.indexOf?]
  | table id =>
      cases found : store.table? id <;>
        simp [indexOf, object?, found, require, bind, Except.bind, pure,
          Except.pure, Object.indexOf?]
  | node | note | block => simp [indexOf, object?, Object.indexOf?]

theorem size_eq_ok_iff {size : Nat} :
    store.size handle = .ok size ↔
      ∃ object, store.object? handle = some object ∧
        object.size? = some size := by
  cases handle with
  | list id =>
      cases found : store.list? id <;>
        simp [Store.size, listSize, object?, found, require, bind, Except.bind,
          pure, Except.pure, Object.size?]
  | block id =>
      cases found : store.block? id <;>
        simp [Store.size, object?, found, require, bind, Except.bind, pure,
          Except.pure, Object.size?]
  | table id =>
      cases found : store.table? id <;>
        simp [Store.size, object?, found, require, bind, Except.bind, pure,
          Except.pure, Object.size?]
  | node | note => simp [Store.size, object?, Object.size?]

theorem Consistent.indexOf_eq_ok_iff (consistent : store.Consistent)
    {name : String} {index : Nat} :
    store.indexOf handle name = .ok (some index) ↔
      store.nameAt handle index = .ok (some name) := by
  rw [Store.indexOf_eq_ok_iff, nameAt_eq_ok_iff]
  constructor
  · rintro ⟨object, found, known⟩
    exact ⟨object, found,
      (consistent.object found).indexOf?_eq_some_iff.mp known⟩
  · rintro ⟨object, found, known⟩
    exact ⟨object, found,
      (consistent.object found).indexOf?_eq_some_iff.mpr known⟩

namespace Keeps

variable (keeps : store.Keeps later)

include keeps

theorem exists_node? {id : NodeId} {node : Node}
    (found : store.node? id = some node) :
    ∃ node', later.node? id = some node' ∧ node.Keeps node' := by
  obtain ⟨object, found', keepsObject⟩ :=
    keeps (object?_node_eq_some_iff.mpr found)
  cases keepsObject with
  | node keepsNode =>
      exact ⟨_, object?_node_eq_some_iff.mp found', keepsNode⟩

theorem argumentsOf {arguments : Handle}
    (found : store.argumentsOf handle = .ok arguments) :
    later.argumentsOf handle = .ok arguments := by
  rw [argumentsOf_eq_ok_iff] at found ⊢
  obtain ⟨object, there, isList⟩ := found
  obtain ⟨object', there', keepsObject⟩ := keeps there
  exact ⟨object', there', keepsObject.arguments?.symm ▸ isList⟩

theorem nameAt {name : String} {index : Nat}
    (found : store.nameAt handle index = .ok (some name)) :
    later.nameAt handle index = .ok (some name) := by
  rw [nameAt_eq_ok_iff] at found ⊢
  obtain ⟨object, there, known⟩ := found
  obtain ⟨object', there', keepsObject⟩ := keeps there
  exact ⟨object', there', keepsObject.nameAt? known⟩

theorem exists_size {size : Nat} (found : store.size handle = .ok size) :
    ∃ size', later.size handle = .ok size' ∧ size ≤ size' := by
  obtain ⟨object, there, isSize⟩ := size_eq_ok_iff.mp found
  obtain ⟨object', there', keepsObject⟩ := keeps there
  obtain ⟨size', isSize', notLess⟩ := keepsObject.exists_size? isSize
  exact ⟨size', size_eq_ok_iff.mpr ⟨object', there', isSize'⟩, notLess⟩

end Keeps

end Queries

section Creations

variable {store changed : Store} {operation : Operation}

theorem node?_newNode (store : Store) (node : Node) :
    ((newNode node).run store).2.node? ((newNode node).run store).1 =
      some node :=
  object?_node_eq_some_iff.mp (adds_newNode store node).updates.object?_self

/-- An expression begins with the kind and the type that it is made with. -/
theorem exists_node?_of_apply {id : NodeId} {kind : ExpressionKind}
    {type : ValueType} (result : store.apply operation = .ok (.node id, changed))
    (made : operation.identity? = some (kind, type)) :
    ∃ node, changed.node? id = some node ∧ node.kind = kind ∧
      node.type = type := by
  cases operation with
  | newConstant | newParameter | newTemporary =>
      cases made
      cases result
      exact ⟨_, node?_newNode store _, rfl, rfl⟩
  | newCall type tag =>
      cases made
      simp only [apply, bind_eq_ok_iff] at result
      obtain ⟨_, -, same⟩ := result
      cases same
      exact ⟨_, node?_newNode store _, rfl, rfl⟩
  | newDirectCall type tag arguments =>
      cases made
      simp only [apply, bind_eq_ok_iff] at result
      obtain ⟨_, -, _, -, same⟩ := result
      cases same
      exact ⟨_, node?_newNode store _, rfl, rfl⟩
  | newList | newNote | newBlock | newTable | place | clone | decode | reload |
    setValue | setCall | setDefinition | setIndex | setName | set | add =>
      cases made

/-- What has arguments begins with the list that it is given. -/
theorem argumentsOf_of_apply {handle arguments : Handle}
    (result : store.apply operation = .ok (handle, changed))
    (given : operation.arguments? = some arguments) :
    changed.argumentsOf handle = .ok arguments := by
  rw [argumentsOf_eq_ok_iff]
  cases operation with
  | newDirectCall type tag list =>
      cases given
      simp only [apply, bind_eq_ok_iff, requireList_eq_ok_iff] at result
      obtain ⟨list, ⟨rfl, -⟩, _, -, same⟩ := result
      cases same
      exact ⟨_, (adds_newNode store _).updates.object?_self, rfl⟩
  | newNote name list =>
      cases given
      simp only [apply, bind_eq_ok_iff, requireList_eq_ok_iff] at result
      obtain ⟨list, ⟨rfl, -⟩, same⟩ := result
      cases same
      exact ⟨_, (adds_newNote store _).updates.object?_self, rfl⟩
  | newConstant | newCall | newParameter | newTemporary | newList | newBlock |
    newTable | place | clone | decode | reload | setValue | setCall |
    setDefinition | setIndex | setName | set | add => cases given

end Creations

/-- In every store that can be reached, and in every store that can be reached
from there: an expression has the kind and the type that it was made with, what
has arguments has them in the list that it was given, a name is at the position
at which it was found, and no container is smaller. -/
theorem identity_kept_by_run (before after : List Operation) :
    (∀ operation id changed kind type,
      (run {} before).apply operation = .ok (.node id, changed) →
        operation.identity? = some (kind, type) →
          ∃ node, (changed.run after).node? id = some node ∧
            node.kind = kind ∧ node.type = type) ∧
    (∀ operation handle changed arguments,
      (run {} before).apply operation = .ok (handle, changed) →
        operation.arguments? = some arguments →
          (changed.run after).argumentsOf handle = .ok arguments) ∧
    (∀ id node, (run {} before).node? id = some node →
      ∃ node', ((run {} before).run after).node? id = some node' ∧
        node'.kind = node.kind ∧ node'.type = node.type) ∧
    (∀ handle arguments,
      (run {} before).argumentsOf handle = .ok arguments →
        ((run {} before).run after).argumentsOf handle = .ok arguments) ∧
    (∀ handle name index,
      (run {} before).nameAt handle index = .ok (some name) ∨
        (run {} before).indexOf handle name = .ok (some index) →
        ((run {} before).run after).nameAt handle index = .ok (some name) ∧
          ((run {} before).run after).indexOf handle name =
            .ok (some index)) ∧
    ∀ handle size, (run {} before).size handle = .ok size →
      ∃ size', ((run {} before).run after).size handle = .ok size' ∧
        size ≤ size' := by
  have consistent := consistent_run before
  have consistentLater : ((run {} before).run after).Consistent :=
    run_preserves (fun consistent change => change.consistent consistent)
      consistent after
  have keeps := keeps_run (run {} before) after
  refine ⟨?_, ?_, ?_, ?_, ?_, ?_⟩
  · intro operation id changed kind type result made
    obtain ⟨node, found, sameKind, sameType⟩ := exists_node?_of_apply result made
    obtain ⟨node', found', stays⟩ := (keeps_run changed after).exists_node? found
    exact ⟨node', found', stays.kind.trans sameKind, stays.type.trans sameType⟩
  · intro operation handle changed arguments result given
    exact (keeps_run changed after).argumentsOf (argumentsOf_of_apply result given)
  · intro id node found
    obtain ⟨node', found', stays⟩ := keeps.exists_node? found
    exact ⟨node', found', stays.kind, stays.type⟩
  · exact fun handle arguments found => keeps.argumentsOf found
  · intro handle name index known
    have named : (run {} before).nameAt handle index = .ok (some name) :=
      known.elim id consistent.indexOf_eq_ok_iff.mp
    have stays := keeps.nameAt named
    exact ⟨stays, consistentLater.indexOf_eq_ok_iff.mpr stays⟩
  · exact fun handle size found => keeps.exists_size found

/-- A constant is still an integer when its value is a truth value. -/
theorem identity_kept_by_run_truthValue :
    (run {} [.newConstant (.basic (.int 1)),
        .setValue (.node ⟨0⟩) (.basic (.bool true))]).node? ⟨0⟩ =
          some (.constant (.basic .int) (.basic (.bool true))) ∧
      ∃ node, (run {} [.newConstant (.basic (.int 1)),
          .setValue (.node ⟨0⟩) (.basic (.bool true))]).node? ⟨0⟩ = some node ∧
        node.kind = .constant ∧ node.type = .basic .int :=
  ⟨rfl, (identity_kept_by_run [.newConstant (.basic (.int 1))]
    [.setValue (.node ⟨0⟩) (.basic (.bool true))]).2.2.1 ⟨0⟩ _ rfl⟩

end Store

end MaterialGraph
