import MaterialGraph.Proofs.Store.Cloning
import MaterialGraph.Store.Operation

/-!
# What operations do

An operation that is carried out adds objects or changes one of those that
exist, in one of few ways.  A change writes one object, and the object comes to
hold at most the child that the operation names.  What each of these ways
preserves is preserved by every run.
-/

namespace MaterialGraph

/-- The ways in which an expression can be changed.  Its kind, its type and the
list that it holds stay as they are. -/
inductive Node.Edit : Node → Node → Prop
  | value {type : ValueType} {value : Value} (value' : Value) :
      Edit (.constant type value) (.constant type value')
  | call {type : ValueType} {tag tag' : Tag} (notNull : tag'.isNull = false) :
      Edit (.call type tag) (.call type tag')
  | parameter {type : ValueType} {index : UInt64} (index' : UInt64) :
      Edit (.parameter type index) (.parameter type index')
  | directCall {type : ValueType} {tag tag' : Tag} {list : ListId}
      (notNull : tag'.isNull = false) :
      Edit (.directCall type tag list) (.directCall type tag' list)
  | temporary {type : ValueType} {index : UInt64} (index' : UInt64) :
      Edit (.temporary type index) (.temporary type index')

theorem Node.Edit.children_eq {node edited : Node} (edit : node.Edit edited) :
    (Object.node edited).children = (Object.node node).children := by
  cases edit <;> rfl

namespace Named

/-- The ways in which a container can come to hold a child. -/
inductive Edit {α : Type} (named : Named α) (child : α) : Named α → Prop
  | set {index : Nat} {edited : Named α}
      (replaced : named.set index child = .ok edited) : Edit named child edited
  | add {name : String} {edited : Named α}
      (added : named.add name child = .ok edited) : Edit named child edited

variable {α : Type} {named edited : Named α} {child : α}

theorem Edit.ofSetSlot {slot : Slot}
    (replaced : named.setSlot slot child = .ok edited) :
    named.Edit child edited := by
  cases slot with
  | index position => exact .set replaced
  | name name =>
      simp only [setSlot, setNamed] at replaced
      split at replaced
      · exact .set replaced
      · cases replaced

/-- The given child is held, and otherwise only children that were held. -/
theorem Edit.mem_or_eq {held : α} (edit : named.Edit child edited)
    (member : held ∈ edited.children) :
    held ∈ named.children ∨ held = child := by
  cases edit with
  | set replaced =>
      obtain ⟨inRange, rfl⟩ := set_eq_ok_iff.mp replaced
      exact Array.mem_or_eq_of_mem_set (w := inRange) member
  | add added =>
      rw [children_add added] at member
      exact Array.mem_push.mp member

theorem Edit.mem (edit : named.Edit child edited) :
    child ∈ edited.children := by
  cases edit with
  | set replaced =>
      obtain ⟨inRange, rfl⟩ := set_eq_ok_iff.mp replaced
      exact Array.mem_set inRange
  | add added =>
      rw [children_add added]
      exact Array.mem_push_self

theorem Consistent.edit (consistent : named.Consistent)
    (edit : named.Edit child edited) : edited.Consistent := by
  cases edit with
  | set replaced => exact consistent.set replaced
  | add added => exact consistent.add added

end Named

namespace Operation

/-- The object that an operation changes, if it does not make one. -/
def target? : Operation → Option Handle
  | setValue target _ => some target
  | setCall target _ => some target
  | setDefinition target _ => some target
  | setIndex target _ => some target
  | setName target _ => some target
  | set container _ _ => some container
  | add container _ _ => some container
  | _ => none

/-- The object that an operation puts into the one that it changes. -/
def child? : Operation → Option Handle
  | set _ _ child => some child
  | add _ _ child => some child
  | _ => none

end Operation

namespace Store

/-- What an operation that makes an object does to a store. -/
inductive Creation (store : Store) : Handle → Store → Prop
  | placed (tree : Tree) :
      Creation store (tree.place.run store).1 (tree.place.run store).2
  | cloned {source copy : Handle} {changed : Store}
      (cloned : store.clone? source = some (copy, changed)) :
      Creation store copy changed
  /-- A new direct call shares a list. -/
  | directCall (type : ValueType) {tag : Tag} {list : ListId}
      (notNull : tag.isNull = false) (known : store.Has (.list list)) :
      Creation store (.node ((newNode (.directCall type tag list)).run store).1)
        ((newNode (.directCall type tag list)).run store).2
  /-- A new annotation shares a list. -/
  | note (note : Note) (known : store.Has (.list note.arguments)) :
      Creation store (.note ((newNote note).run store).1)
        ((newNote note).run store).2

/-- What an operation that changes an object does to a store.  The object may
come to hold a child. -/
inductive Mutation (store : Store) : Handle → Option Handle → Store → Prop
  | node {id : NodeId} {node edited : Node}
      (found : store.node? id = some node) (edit : node.Edit edited) :
      Mutation store (.node id) none (store.setNode id edited)
  | note {id : NoteId} {note : Note} (found : store.note? id = some note)
      (name : String) :
      Mutation store (.note id) none (store.setNote id { note with name := name })
  | list {id : ListId} {list edited : Named NodeId} {child : NodeId}
      (found : store.list? id = some list) (known : store.Has (.node child))
      (edit : list.Edit child edited) :
      Mutation store (.list id) (some (.node child)) (store.setList id edited)
  | replacedNote {id : BlockId} {block : Array NoteId} {child : NoteId}
      (found : store.block? id = some block) (known : store.Has (.note child))
      (position : Nat) (inRange : position < block.size) :
      Mutation store (.block id) (some (.note child))
        (store.setBlock id (block.set position child inRange))
  | addedNote {id : BlockId} {block : Array NoteId} {child : NoteId}
      (found : store.block? id = some block) (known : store.Has (.note child)) :
      Mutation store (.block id) (some (.note child))
        (store.setBlock id (block.push child))
  | table {id : TableId} {table edited : Named BlockId} {child : BlockId}
      (found : store.table? id = some table) (known : store.Has (.block child))
      (edit : table.Edit child edited) :
      Mutation store (.table id) (some (.block child))
        (store.setTable id edited)

/-- What an operation that is carried out does to a store. -/
inductive Change (store : Store) (operation : Operation) (handle : Handle)
    (changed : Store) : Prop
  | creation (noTarget : operation.target? = none)
      (creation : store.Creation handle changed)
  | mutation (target : operation.target? = some handle)
      (mutation : store.Mutation handle operation.child? changed)

section Inversion

variable {store changed : Store} {handle : Handle}

theorem bind_eq_ok_iff {ε α β : Type} {first : Except ε α}
    {next : α → Except ε β} {result : β} :
    (first >>= next) = .ok result ↔ ∃ found, first = .ok found ∧
      next found = .ok result := by
  cases first with
  | error reason => simp [bind, Except.bind]
  | ok found => simp [bind, Except.bind]

theorem require_eq_ok_iff {α : Type} {found? : Option α} {found : α} :
    require found? = .ok found ↔ found? = some found := by
  cases found? with
  | none => simp [require]
  | some present => simp [require]

theorem liftEdit_eq_ok_iff {α : Type} {edit : Except EditError α} {edited : α} :
    liftEdit edit = .ok edited ↔ edit = .ok edited := by
  cases edit with
  | error reason => simp [liftEdit]
  | ok result => simp [liftEdit]

theorem requireTag_eq_ok_iff {tag : Tag} {done : Unit} :
    requireTag tag = .ok done ↔ tag.isNull = false := by
  unfold requireTag
  split <;> simp_all

theorem requireList_eq_ok_iff {handle : Handle} {id : ListId} :
    store.requireList handle = .ok id ↔
      handle = .list id ∧ store.Has (.list id) := by
  cases handle with
  | list list =>
      simp only [requireList, bind_eq_ok_iff, require_eq_ok_iff, pure,
        Except.pure, Except.ok.injEq, Handle.list.injEq, Has, object?,
        Option.isSome_map, Option.isSome_iff_exists]
      constructor
      · rintro ⟨found, present, rfl⟩
        exact ⟨rfl, found, present⟩
      · rintro ⟨rfl, found, present⟩
        exact ⟨found, present, rfl⟩
  | node | note | block | table => simp [requireList]

theorem Creation.ofPlace {tree : Tree}
    (result : store.create tree.place = .ok (handle, changed)) :
    store.Creation handle changed := by
  have placed := (Creation.placed tree : store.Creation _ _)
  rw [Except.ok.inj result] at placed
  exact placed

/-- What is changed is an expression that exists. -/
theorem exists_of_changeNode {target : Handle}
    {change : Node → Except Refusal Node}
    (result : store.changeNode target change = .ok (handle, changed)) :
    ∃ id node edited, target = .node id ∧ handle = .node id ∧
      store.node? id = some node ∧ change node = .ok edited ∧
      changed = store.setNode id edited := by
  cases target with
  | node id =>
      unfold changeNode requireNode at result
      cases found : store.node? id with
      | none => simp [found, bind, Except.bind] at result
      | some node =>
          simp only [found, bind_eq_ok_iff, Except.ok.injEq,
            Prod.exists] at result
          obtain ⟨_, _, same, edited, edit, same'⟩ := result
          cases same
          cases same'
          exact ⟨id, node, edited, rfl, rfl, found, edit, rfl⟩
  | list | note | block | table => cases result

/-- The ways in which a child takes the place of another one. -/
inductive Replaces (store : Store) : Handle → Slot → Handle → Store → Prop
  | list {id : ListId} {list edited : Named NodeId} {slot : Slot}
      {child : NodeId} (found : store.list? id = some list)
      (known : store.Has (.node child))
      (replaced : list.setSlot slot child = .ok edited) :
      Replaces store (.list id) slot (.node child) (store.setList id edited)
  | block {id : BlockId} {block : Array NoteId} {child : NoteId}
      (found : store.block? id = some block) (known : store.Has (.note child))
      (position : Nat) (inRange : position < block.size) :
      Replaces store (.block id) (.index position) (.note child)
        (store.setBlock id (block.set position child inRange))
  | table {id : TableId} {table edited : Named BlockId} {slot : Slot}
      {child : BlockId} (found : store.table? id = some table)
      (known : store.Has (.block child))
      (replaced : table.setSlot slot child = .ok edited) :
      Replaces store (.table id) slot (.block child) (store.setTable id edited)

theorem Replaces.ofSet {container child : Handle} {slot : Slot}
    (result : store.set container slot child = .ok (handle, changed)) :
    container = handle ∧ store.Replaces container slot child changed := by
  unfold Store.set at result
  split at result
  · simp only [bind_eq_ok_iff, require_eq_ok_iff, liftEdit_eq_ok_iff] at result
    obtain ⟨list, found, _, present, edited, replaced, same⟩ := result
    cases same
    exact ⟨rfl, .list found
      (has_of_object?_eq_some (object?_node_eq_some_iff.mpr present)) replaced⟩
  · split at result
    · cases result
    · simp only [bind_eq_ok_iff, require_eq_ok_iff] at result
      obtain ⟨block, found, _, present, replaced⟩ := result
      split at replaced
      · cases replaced
        exact ⟨rfl, .block found
          (has_of_object?_eq_some (object?_note_eq_some_iff.mpr present)) _ _⟩
      · cases replaced
  · simp only [bind_eq_ok_iff, require_eq_ok_iff, liftEdit_eq_ok_iff] at result
    obtain ⟨table, found, _, present, edited, replaced, same⟩ := result
    cases same
    exact ⟨rfl, .table found
      (has_of_object?_eq_some (object?_block_eq_some_iff.mpr present)) replaced⟩
  · cases result

/-- The ways in which a child is added at the end. -/
inductive Appends (store : Store) :
    Handle → Option String → Handle → Store → Prop
  | list {id : ListId} {list edited : Named NodeId} {name : String}
      {child : NodeId} (found : store.list? id = some list)
      (known : store.Has (.node child))
      (added : list.add name child = .ok edited) :
      Appends store (.list id) (some name) (.node child)
        (store.setList id edited)
  | block {id : BlockId} {block : Array NoteId} {child : NoteId}
      (found : store.block? id = some block) (known : store.Has (.note child)) :
      Appends store (.block id) none (.note child)
        (store.setBlock id (block.push child))
  | table {id : TableId} {table edited : Named BlockId} {name : String}
      {child : BlockId} (found : store.table? id = some table)
      (known : store.Has (.block child))
      (added : table.add name child = .ok edited) :
      Appends store (.table id) (some name) (.block child)
        (store.setTable id edited)

theorem Appends.ofAdd {container child : Handle} {name : Option String}
    (result : store.add container name child = .ok (handle, changed)) :
    container = handle ∧ store.Appends container name child changed := by
  unfold Store.add at result
  split at result
  · simp only [bind_eq_ok_iff, require_eq_ok_iff, liftEdit_eq_ok_iff] at result
    obtain ⟨list, found, _, present, edited, added, same⟩ := result
    cases same
    exact ⟨rfl, .list found
      (has_of_object?_eq_some (object?_node_eq_some_iff.mpr present)) added⟩
  · simp only [bind_eq_ok_iff, require_eq_ok_iff] at result
    obtain ⟨block, found, _, present, same⟩ := result
    cases same
    exact ⟨rfl, .block found
      (has_of_object?_eq_some (object?_note_eq_some_iff.mpr present))⟩
  · simp only [bind_eq_ok_iff, require_eq_ok_iff, liftEdit_eq_ok_iff] at result
    obtain ⟨table, found, _, present, edited, added, same⟩ := result
    cases same
    exact ⟨rfl, .table found
      (has_of_object?_eq_some (object?_block_eq_some_iff.mpr present)) added⟩
  · cases result

/-- A changed expression is one that exists, and the change is one of those
that are allowed. -/
theorem Mutation.ofChangeNode {target : Handle}
    {change : Node → Except Refusal Node}
    (result : store.changeNode target change = .ok (handle, changed))
    (allowed : ∀ node edited, change node = .ok edited → node.Edit edited) :
    target = handle ∧ store.Mutation handle none changed := by
  obtain ⟨id, node, edited, rfl, rfl, found, edit, rfl⟩ :=
    exists_of_changeNode result
  exact ⟨rfl, .node found (allowed node edited edit)⟩

theorem Mutation.ofSet {container child : Handle} {slot : Slot}
    (result : store.set container slot child = .ok (handle, changed)) :
    container = handle ∧ store.Mutation handle (some child) changed := by
  obtain ⟨rfl, replaces⟩ := Replaces.ofSet result
  cases replaces with
  | list found known replaced =>
      exact ⟨rfl, .list found known (.ofSetSlot replaced)⟩
  | block found known => exact ⟨rfl, .replacedNote found known _ _⟩
  | table found known replaced =>
      exact ⟨rfl, .table found known (.ofSetSlot replaced)⟩

theorem Mutation.ofAdd {container child : Handle} {name : Option String}
    (result : store.add container name child = .ok (handle, changed)) :
    container = handle ∧ store.Mutation handle (some child) changed := by
  obtain ⟨rfl, appends⟩ := Appends.ofAdd result
  cases appends with
  | list found known added => exact ⟨rfl, .list found known (.add added)⟩
  | block found known => exact ⟨rfl, .addedNote found known⟩
  | table found known added => exact ⟨rfl, .table found known (.add added)⟩

/-- Every operation that is carried out makes an object or changes its
target. -/
theorem Change.ofApply {operation : Operation}
    (result : store.apply operation = .ok (handle, changed)) :
    store.Change operation handle changed := by
  cases operation with
  | newConstant value =>
      cases result
      exact .creation rfl (.placed (.expression (.constant value.type value)))
  | newCall type tag =>
      simp only [apply, bind_eq_ok_iff] at result
      obtain ⟨_, -, same⟩ := result
      cases same
      exact .creation rfl (.placed (.expression (.call type tag)))
  | newParameter type index =>
      cases result
      exact .creation rfl (.placed (.expression (.parameter type index)))
  | newTemporary type index =>
      cases result
      exact .creation rfl (.placed (.expression (.temporary type index)))
  | newDirectCall type tag arguments =>
      simp only [apply, bind_eq_ok_iff, requireTag_eq_ok_iff,
        requireList_eq_ok_iff] at result
      obtain ⟨list, ⟨-, known⟩, _, notNull, same⟩ := result
      cases same
      exact .creation rfl (.directCall type notNull known)
  | newList =>
      cases result
      exact .creation rfl (.placed (.arguments []))
  | newNote name arguments =>
      simp only [apply, bind_eq_ok_iff, requireList_eq_ok_iff] at result
      obtain ⟨list, ⟨-, known⟩, same⟩ := result
      cases same
      exact .creation rfl (.note ⟨name, list⟩ known)
  | newBlock =>
      cases result
      exact .creation rfl (.placed (.annotationBlock []))
  | newTable =>
      cases result
      exact .creation rfl (.placed (.annotationTable []))
  | place tree => exact .creation rfl (.ofPlace result)
  | clone source =>
      cases source with
      | node | list =>
          exact .creation rfl (.cloned (require_eq_ok_iff.mp result))
      | note | block | table => cases result
  | decode form bytes =>
      simp only [apply, bind_eq_ok_iff] at result
      obtain ⟨tree, -, placed⟩ := result
      exact .creation rfl (.ofPlace placed)
  | reload source =>
      simp only [apply, bind_eq_ok_iff] at result
      obtain ⟨_, -, tree, -, placed⟩ := result
      exact .creation rfl (.ofPlace placed)
  | setValue target value =>
      simp only [apply] at result
      obtain ⟨rfl, mutation⟩ :=
        Mutation.ofChangeNode result fun node edited edit => by
          cases node with
          | constant type old =>
              cases edit
              exact .value value
          | call | parameter | directCall | temporary => cases edit
      exact .mutation rfl mutation
  | setCall target tag =>
      simp only [apply] at result
      obtain ⟨rfl, mutation⟩ :=
        Mutation.ofChangeNode result fun node edited edit => by
          cases node with
          | call type old =>
              simp only [bind_eq_ok_iff, requireTag_eq_ok_iff] at edit
              obtain ⟨_, notNull, same⟩ := edit
              cases same
              exact .call notNull
          | constant | parameter | directCall | temporary => cases edit
      exact .mutation rfl mutation
  | setDefinition target tag =>
      simp only [apply] at result
      obtain ⟨rfl, mutation⟩ :=
        Mutation.ofChangeNode result fun node edited edit => by
          cases node with
          | directCall type old list =>
              simp only [bind_eq_ok_iff, requireTag_eq_ok_iff] at edit
              obtain ⟨_, notNull, same⟩ := edit
              cases same
              exact .directCall notNull
          | constant | call | parameter | temporary => cases edit
      exact .mutation rfl mutation
  | setIndex target index =>
      simp only [apply] at result
      obtain ⟨rfl, mutation⟩ :=
        Mutation.ofChangeNode result fun node edited edit => by
          cases node with
          | parameter type old =>
              cases edit
              exact .parameter index
          | temporary type old =>
              cases edit
              exact .temporary index
          | constant | call | directCall => cases edit
      exact .mutation rfl mutation
  | setName target name =>
      simp only [apply] at result
      split at result
      · simp only [bind_eq_ok_iff, require_eq_ok_iff] at result
        obtain ⟨note, found, same⟩ := result
        cases same
        exact .mutation rfl (.note found name)
      · cases result
  | set container slot child =>
      obtain ⟨rfl, mutation⟩ := Mutation.ofSet result
      exact .mutation rfl mutation
  | add container name child =>
      obtain ⟨rfl, mutation⟩ := Mutation.ofAdd result
      exact .mutation rfl mutation

/-- An expression can be put into a list under a name that is new there. -/
theorem exists_apply_add {id : NodeId} {list : ListId} {named : Named NodeId}
    {node : Node} {name : String} (consistent : named.Consistent)
    (there : store.list? list = some named)
    (present : store.node? id = some node)
    (absent : name ∉ named.toList.map Prod.fst) :
    ∃ extended, store.apply (.add (.list list) (some name) (.node id)) =
        .ok (.list list, store.setList list extended) ∧
      extended.Consistent ∧ extended.toList = named.toList ++ [(name, id)] := by
  obtain ⟨extended, added, consistentExtended, entries⟩ :=
    consistent.add_of_notMem id absent
  refine ⟨extended, ?_, consistentExtended, entries⟩
  simp [apply, Store.add, require, there, present, added, liftEdit, bind,
    Except.bind, pure, Except.pure]

end Inversion

/-- Every creation adds objects and leaves those that exist alone. -/
theorem Creation.addsTo {store changed : Store} {handle : Handle}
    (creation : store.Creation handle changed) : store.AddsTo changed := by
  cases creation with
  | placed tree => exact tree.addsTo_place store
  | cloned cloned => exact (IsClone.ofClone? cloned).adds
  | directCall type _ known => exact addsTo_newDirectCall store type _ known
  | note note known => exact addsTo_newNote store known

/-- An object that exists is written.  It holds the given child, if there is
one, and otherwise only what it held before. -/
structure Rewrites (store : Store) (target : Handle) (child? : Option Handle)
    (object : Object) (changed : Store) : Prop where
  present : store.Has target
  updates : store.Updates target object changed
  inStep : store.Consistent → object.Consistent
  held : ∀ part ∈ object.children,
    part ∈ store.children target ∨ child? = some part
  holds : ∀ child, child? = some child → child ∈ object.children
  known : ∀ child, child? = some child → store.Has child

/-- A container is rewritten if it comes to hold one child. -/
theorem Rewrites.ofChildren {α : Type} {store changed : Store} {target : Handle}
    {object object' : Object} {before after : Array α} {child : α}
    {wrap : α → Handle} (found : store.object? target = some object)
    (updates : store.Updates target object' changed)
    (inStep : store.Consistent → object'.Consistent)
    (children : object.children = before.toList.map wrap)
    (children' : object'.children = after.toList.map wrap)
    (mem_or_eq : ∀ part ∈ after, part ∈ before ∨ part = child)
    (mem : child ∈ after) (known : store.Has (wrap child)) :
    store.Rewrites target (some (wrap child)) object' changed where
  present := has_of_object?_eq_some found
  updates := updates
  inStep := inStep
  held part member := by
    rw [children'] at member
    obtain ⟨inner, innerMember, rfl⟩ := List.mem_map.mp member
    rcases mem_or_eq inner (Array.mem_def.mpr innerMember) with old | rfl
    · rw [children_of_object?_eq_some found, children]
      exact .inl (List.mem_map_of_mem (Array.mem_def.mp old))
    · exact .inr rfl
  holds := by
    rintro _ ⟨⟩
    rw [children']
    exact List.mem_map_of_mem (Array.mem_def.mp mem)
  known := by
    rintro _ ⟨⟩
    exact known

/-- An object is rewritten if it holds what it held. -/
theorem Rewrites.ofSameChildren {store changed : Store} {target : Handle}
    {object object' : Object} (found : store.object? target = some object)
    (updates : store.Updates target object' changed)
    (inStep : store.Consistent → object'.Consistent)
    (same : object'.children = object.children) :
    store.Rewrites target none object' changed where
  present := has_of_object?_eq_some found
  updates := updates
  inStep := inStep
  held part member := by
    rw [children_of_object?_eq_some found, ← same]
    exact .inl member
  holds := nofun
  known := nofun

theorem Mutation.exists_rewrites {store changed : Store} {target : Handle}
    {child? : Option Handle} (mutation : store.Mutation target child? changed) :
    ∃ object, store.Rewrites target child? object changed := by
  cases mutation with
  | node found edit =>
      exact ⟨_, .ofSameChildren (object?_node_eq_some_iff.mpr found)
        (updates_setNode store found _) (fun _ => trivial) edit.children_eq⟩
  | note found name =>
      exact ⟨_, .ofSameChildren (object?_note_eq_some_iff.mpr found)
        (updates_setNote store found _) (fun _ => trivial) rfl⟩
  | list found known edit =>
      exact ⟨_, .ofChildren (object?_list_eq_some_iff.mpr found)
        (updates_setList store found _)
        (fun consistent => (consistent.lists found).edit edit) rfl rfl
        (fun _ => edit.mem_or_eq) edit.mem known⟩
  | replacedNote found known position inRange =>
      exact ⟨_, .ofChildren (object?_block_eq_some_iff.mpr found)
        (updates_setBlock store found _) (fun _ => trivial) rfl rfl
        (fun _ => Array.mem_or_eq_of_mem_set) (Array.mem_set inRange) known⟩
  | addedNote found known =>
      exact ⟨_, .ofChildren (object?_block_eq_some_iff.mpr found)
        (updates_setBlock store found _) (fun _ => trivial) rfl rfl
        (fun _ => Array.mem_push.mp) Array.mem_push_self known⟩
  | table found known edit =>
      exact ⟨_, .ofChildren (object?_table_eq_some_iff.mpr found)
        (updates_setTable store found _)
        (fun consistent => (consistent.tables found).edit edit) rfl rfl
        (fun _ => edit.mem_or_eq) edit.mem known⟩

section Invariants

variable {store changed : Store} {operation : Operation} {handle : Handle}

theorem Change.consistent (change : store.Change operation handle changed)
    (consistent : store.Consistent) : changed.Consistent := by
  cases change with
  | creation _ creation => exact creation.addsTo.consistent consistent
  | mutation _ mutation =>
      obtain ⟨object, rewrites⟩ := mutation.exists_rewrites
      exact rewrites.updates.consistent (rewrites.inStep consistent) consistent

theorem Change.closed (change : store.Change operation handle changed)
    (closed : store.Closed) : changed.Closed := by
  cases change with
  | creation _ creation => exact creation.addsTo.closed closed
  | mutation _ mutation =>
      obtain ⟨object, rewrites⟩ := mutation.exists_rewrites
      refine rewrites.updates.closed closed fun part member => ?_
      rcases rewrites.held part member with old | new
      · exact rewrites.updates.has_of_has (closed old)
      · exact rewrites.updates.has_of_has (rewrites.known part new)

end Invariants

section Runs

/-- A condition holds of every operation of a run and of the store that the
operation finds. -/
def EachStep (condition : Store → Operation → Prop) :
    Store → List Operation → Prop
  | _, [] => True
  | store, operation :: rest =>
      condition store operation ∧
        EachStep condition (store.run [operation]) rest

theorem run_cons (store : Store) (operation : Operation)
    (rest : List Operation) :
    store.run (operation :: rest) = (store.run [operation]).run rest :=
  rfl

theorem run_singleton_of_ok {store changed : Store} {operation : Operation}
    {handle : Handle} (result : store.apply operation = .ok (handle, changed)) :
    store.run [operation] = changed := by
  simp [run, result]

theorem run_singleton_of_error {store : Store} {operation : Operation}
    {reason : Refusal} (refused : store.apply operation = .error reason) :
    store.run [operation] = store := by
  simp [run, refused]

theorem run_singleton_cases (store : Store) (operation : Operation) :
    (∃ handle changed, store.apply operation = .ok (handle, changed) ∧
        store.run [operation] = changed) ∨
      store.run [operation] = store := by
  cases result : store.apply operation with
  | ok outcome =>
      exact .inl ⟨outcome.1, outcome.2, rfl, run_singleton_of_ok result⟩
  | error reason => exact .inr (run_singleton_of_error result)

/-- What every operation that meets a condition preserves when it is carried out
is preserved by every run whose steps all meet it. -/
theorem run_preserves_of_apply {condition : Store → Operation → Prop}
    {property : Store → Prop}
    (preserved : ∀ {store operation handle changed}, property store →
      condition store operation →
        store.apply operation = .ok (handle, changed) → property changed)
    {operations : List Operation} {store : Store} (holds : property store)
    (each : EachStep condition store operations) :
    property (store.run operations) := by
  induction operations generalizing store with
  | nil => exact holds
  | cons operation rest induction =>
      obtain ⟨meets, later⟩ := each
      rw [run_cons]
      rcases run_singleton_cases store operation with
        ⟨handle, changed, result, ran⟩ | unchanged
      · refine induction ?_ later
        rw [ran]
        exact preserved holds meets result
      · refine induction ?_ later
        rwa [unchanged]

/-- What every change that meets a condition preserves is preserved by every
run whose steps all meet it. -/
theorem run_preserves_of_eachStep {condition : Store → Operation → Prop}
    {property : Store → Prop}
    (preserved : ∀ {store operation handle changed}, property store →
      condition store operation → store.Change operation handle changed →
        property changed)
    {operations : List Operation} {store : Store} (holds : property store)
    (each : EachStep condition store operations) :
    property (store.run operations) :=
  run_preserves_of_apply
    (fun holds meets result => preserved holds meets (.ofApply result)) holds
    each

theorem eachStep_of_forall {condition : Store → Operation → Prop}
    {operations : List Operation}
    (all : ∀ operation ∈ operations, ∀ store, condition store operation)
    (store : Store) : EachStep condition store operations := by
  induction operations generalizing store with
  | nil => trivial
  | cons operation rest induction =>
      obtain ⟨first, others⟩ := List.forall_mem_cons.mp all
      exact ⟨first store, induction others _⟩

/-- What every change preserves is preserved by every run. -/
theorem run_preserves {property : Store → Prop}
    (preserved : ∀ {store operation handle changed}, property store →
      store.Change operation handle changed → property changed)
    {store : Store} (holds : property store) (operations : List Operation) :
    property (store.run operations) := by
  have each : EachStep (fun _ _ => True) store operations :=
    eachStep_of_forall (fun _ _ _ => trivial) store
  exact run_preserves_of_eachStep
    (fun holds _ change => preserved holds change) holds each

/-- In every store that can be reached, containers are in step. -/
theorem consistent_run (operations : List Operation) :
    (run {} operations).Consistent :=
  run_preserves (fun consistent change => change.consistent consistent)
    consistent_empty operations

theorem closed_empty : Closed ({} : Store) := by
  intro owner part owns
  have found := has_of_owns owns
  cases owner <;> cases found

/-- In every store that can be reached, what is held is there. -/
theorem closed_run (operations : List Operation) :
    (run {} operations).Closed :=
  run_preserves (fun closed change => change.closed closed) closed_empty
    operations

end Runs

end Store

end MaterialGraph
