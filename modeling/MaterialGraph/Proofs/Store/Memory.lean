import MaterialGraph.Proofs.Store.Cycles
import MaterialGraph.Store.Memory
import Mathlib.Algebra.Order.BigOperators.Group.List
import Mathlib.Algebra.Order.Group.Nat

/-!
# Every part is counted

The memory of an object is its own memory and the sum of what it holds, on
every machine and however much room has been reserved.  An object without a
cycle below it has an amount of memory, and it is more than that of its parts
together.  The footprint is the amount where nothing is reserved that is not
needed.

The room for the search along paths is the one that unfolding is given, so that
an expression has an amount of memory whenever it has a tree.
-/

namespace MaterialGraph

/-- The memory that an object takes besides what it holds. -/
def Object.ownMemory (allocation : Allocation) (handle : Handle) :
    Object → Nat
  | node held =>
      let own :=
        allocation.sizes.expression held.kind + allocation.type handle held.type
      match held with
      | .constant _ value => own + allocation.value handle value
      | _ => own
  | list named => allocation.sizes.list + allocation.overhead handle named
  | note held => allocation.sizes.note + allocation.letters handle held.name
  | block notes =>
      let room := (allocation.room handle notes.size).children
      allocation.sizes.block + room * allocation.sizes.reference
  | table named => allocation.sizes.table + allocation.overhead handle named

theorem Object.ownMemory_pos (allocation : Allocation) (handle : Handle)
    (object : Object) : 0 < object.ownMemory allocation handle := by
  cases object with
  | node held =>
      have fixed := allocation.sizes.expression_pos held.kind
      cases held <;> simp only [ownMemory] <;> omega
  | list => exact Nat.add_pos_left allocation.sizes.list_pos _
  | note => exact Nat.add_pos_left allocation.sizes.note_pos _
  | block => exact Nat.add_pos_left allocation.sizes.block_pos _
  | table => exact Nat.add_pos_left allocation.sizes.table_pos _

namespace Node

variable {allocation : Allocation} {handle : Handle}
  {list? larger : ListId → Option Nat}

theorem memory?_directCall_eq_some_iff {type : ValueType} {tag : Tag}
    {list : ListId} {memory : Nat} :
    (directCall type tag list).memory? allocation list? handle =
        some memory ↔
      ∃ arguments, list? list = some arguments ∧
        (Object.node (.directCall type tag list)).ownMemory allocation handle +
          arguments = memory := by
  simp [memory?, Object.ownMemory, Option.bind_eq_some_iff]

theorem memory?_extendedBy (extended : ExtendedBy list? larger) :
    ExtendedBy (memory? allocation list? handle)
      (memory? allocation larger handle) := by
  intro node memory result
  cases node with
  | directCall type tag list =>
      rw [memory?_directCall_eq_some_iff] at result ⊢
      obtain ⟨arguments, found, same⟩ := result
      exact ⟨arguments, extended found, same⟩
  | constant | call | parameter | temporary => exact result

end Node

namespace Store

variable {store : Store} {allocation : Allocation} {handle : Handle}

section Search

theorem memoryOfList?_eq_some_iff {node? : NodeId → Option Nat} {id : ListId}
    {memory : Nat} :
    store.memoryOfList? allocation node? id = some memory ↔
      ∃ list, store.list? id = some list ∧
        ∃ parts, list.children.toList.mapM node? = some parts ∧
          (Object.list list).ownMemory allocation (.list id) + parts.sum =
            memory := by
  simp [memoryOfList?, Object.ownMemory, Footprint.total_eq_sum,
    Option.bind_eq_some_iff]

theorem memoryOfNode?_succ_eq_some_iff {length : Nat} {id : NodeId}
    {memory : Nat} :
    store.memoryOfNode? allocation (length + 1) id = some memory ↔
      ∃ node, store.node? id = some node ∧
        node.memory? allocation
            (store.memoryOfList? allocation
              (store.memoryOfNode? allocation length)) (.node id) =
          some memory := by
  simp [memoryOfNode?, Option.bind_eq_some_iff]

theorem memoryOfNote?_eq_some_iff {list? : ListId → Option Nat} {id : NoteId}
    {memory : Nat} :
    store.memoryOfNote? allocation list? id = some memory ↔
      ∃ note, store.note? id = some note ∧
        ∃ arguments, list? note.arguments = some arguments ∧
          (Object.note note).ownMemory allocation (.note id) + arguments =
            memory := by
  simp [memoryOfNote?, Object.ownMemory, Option.bind_eq_some_iff]

theorem memoryOfBlock?_eq_some_iff {note? : NoteId → Option Nat} {id : BlockId}
    {memory : Nat} :
    store.memoryOfBlock? allocation note? id = some memory ↔
      ∃ notes, store.block? id = some notes ∧
        ∃ parts, notes.toList.mapM note? = some parts ∧
          (Object.block notes).ownMemory allocation (.block id) + parts.sum =
            memory := by
  simp [memoryOfBlock?, Object.ownMemory, Footprint.total_eq_sum,
    Option.bind_eq_some_iff]

theorem memoryOfTable?_eq_some_iff {block? : BlockId → Option Nat}
    {id : TableId} {memory : Nat} :
    store.memoryOfTable? allocation block? id = some memory ↔
      ∃ table, store.table? id = some table ∧
        ∃ parts, table.children.toList.mapM block? = some parts ∧
          (Object.table table).ownMemory allocation (.table id) + parts.sum =
            memory := by
  simp [memoryOfTable?, Object.ownMemory, Footprint.total_eq_sum,
    Option.bind_eq_some_iff]

theorem memoryOfList?_extendedBy {known larger : NodeId → Option Nat}
    (extended : ExtendedBy known larger) :
    ExtendedBy (store.memoryOfList? allocation known)
      (store.memoryOfList? allocation larger) := by
  intro id memory result
  rw [memoryOfList?_eq_some_iff] at result ⊢
  obtain ⟨list, there, parts, measured, same⟩ := result
  exact ⟨list, there, parts, mapM_extendedBy extended measured, same⟩

theorem memoryOfNode?_extendedBy (length : Nat) :
    ExtendedBy (store.memoryOfNode? allocation length)
      (store.memoryOfNode? allocation (length + 1)) := by
  induction length with
  | zero =>
      intro id memory result
      cases result
  | succ length induction =>
      intro id memory result
      rw [memoryOfNode?_succ_eq_some_iff] at result ⊢
      obtain ⟨node, there, measured⟩ := result
      exact ⟨node, there,
        Node.memory?_extendedBy (memoryOfList?_extendedBy induction) measured⟩

/-- A list that has a tree has an amount of memory if its expressions have. -/
theorem isSome_memoryOfList? (consistent : store.Consistent)
    {tree? : NodeId → Option Expression} {node? : NodeId → Option Nat}
    (measures : ∀ id, (tree? id).isSome → (node? id).isSome) {id : ListId}
    (unfolds : (store.expandList? tree? id).isSome) :
    (store.memoryOfList? allocation node? id).isSome := by
  obtain ⟨arguments, entries⟩ := Option.isSome_iff_exists.mp unfolds
  obtain ⟨list, there, -⟩ := expandList?_eq_some_iff.mp entries
  have children : ∀ child ∈ list.children.toList, (node? child).isSome :=
    fun child member =>
      measures child
        (isSome_of_expandList? consistent there unfolds child member)
  obtain ⟨parts, measured⟩ :=
    Option.isSome_iff_exists.mp (isSome_mapM.mpr children)
  exact Option.isSome_of_eq_some
    (memoryOfList?_eq_some_iff.mpr ⟨list, there, parts, measured, rfl⟩)

theorem isSome_memoryOfNode? (consistent : store.Consistent) {length : Nat}
    {id : NodeId} (unfolds : (store.unfoldNode? length id).isSome) :
    (store.memoryOfNode? allocation length id).isSome := by
  induction length generalizing id with
  | zero => cases unfolds
  | succ length induction =>
      obtain ⟨expression, found⟩ := Option.isSome_iff_exists.mp unfolds
      obtain ⟨node, there, expanded⟩ := unfoldNode?_succ_eq_some_iff.mp found
      rw [memoryOfNode?, there, Option.bind_some]
      cases node with
      | constant | call | parameter | temporary => rfl
      | directCall type tag list =>
          obtain ⟨arguments, entries, -⟩ :=
            Node.expand?_directCall_eq_some_iff.mp expanded
          have inner : (store.memoryOfList? allocation
              (store.memoryOfNode? allocation length) list).isSome :=
            isSome_memoryOfList? consistent (fun _ => induction)
              (Option.isSome_of_eq_some entries)
          obtain ⟨memory, measured⟩ := Option.isSome_iff_exists.mp inner
          exact Option.isSome_of_eq_some
            (Node.memory?_directCall_eq_some_iff.mpr ⟨memory, measured, rfl⟩)

/-- The room that a search is given is that of every search below it. -/
theorem memoryOfNode?_size_eq (consistent : store.Consistent) {id : NodeId}
    {node : Node} (there : store.node? id = some node)
    (unfolds : (store.unfoldNode? store.nodes.size id).isSome) :
    store.memoryOfNode? allocation store.nodes.size id =
      node.memory? allocation
        (store.memoryOfList? allocation
          (store.memoryOfNode? allocation store.nodes.size)) (.node id) := by
  have measures :
      (store.memoryOfNode? allocation store.nodes.size id).isSome :=
    isSome_memoryOfNode? consistent unfolds
  obtain ⟨memory, measured⟩ := Option.isSome_iff_exists.mp measures
  have more : store.memoryOfNode? allocation (store.nodes.size + 1) id =
      some memory :=
    memoryOfNode?_extendedBy store.nodes.size measured
  rw [memoryOfNode?, there, Option.bind_some] at more
  rw [measured, more]

end Search

/-- The memory of an object is its own and that of its parts. -/
theorem memory?_eq_some_of_parts (consistent : store.Consistent)
    (unfolds : (store.unfolding? handle).isSome) {object : Object}
    (there : store.object? handle = some object) {parts : List Nat}
    (measured : object.children.mapM (store.memory? allocation) = some parts) :
    store.memory? allocation handle =
      some (object.ownMemory allocation handle + parts.sum) := by
  cases handle with
  | node id =>
      obtain ⟨node, found, rfl⟩ := Option.map_eq_some_iff.mp there
      have root : (store.unfoldNode? store.nodes.size id).isSome :=
        Option.isSome_map.symm.trans unfolds
      refine (memoryOfNode?_size_eq consistent found root).trans ?_
      cases node with
      | constant | call | parameter | temporary =>
          cases measured
          rfl
      | directCall type tag list =>
          obtain ⟨arguments, entries, rfl⟩ : ∃ arguments,
              store.memory? allocation (.list list) = some arguments ∧
                [arguments] = parts := by
            simpa [Object.children, Option.bind_eq_some_iff] using measured
          rw [List.sum_singleton]
          exact Node.memory?_directCall_eq_some_iff.mpr
            ⟨arguments, entries, rfl⟩
  | list id =>
      obtain ⟨list, found, rfl⟩ := Option.map_eq_some_iff.mp there
      simp only [Object.children, List.mapM_map] at measured
      exact memoryOfList?_eq_some_iff.mpr ⟨list, found, parts, measured, rfl⟩
  | note id =>
      obtain ⟨note, found, rfl⟩ := Option.map_eq_some_iff.mp there
      obtain ⟨arguments, entries, rfl⟩ : ∃ arguments,
          store.memory? allocation (.list note.arguments) = some arguments ∧
            [arguments] = parts := by
        simpa [Object.children, Option.bind_eq_some_iff] using measured
      rw [List.sum_singleton]
      exact memoryOfNote?_eq_some_iff.mpr ⟨note, found, arguments, entries, rfl⟩
  | block id =>
      obtain ⟨notes, found, rfl⟩ := Option.map_eq_some_iff.mp there
      simp only [Object.children, List.mapM_map] at measured
      exact memoryOfBlock?_eq_some_iff.mpr ⟨notes, found, parts, measured, rfl⟩
  | table id =>
      obtain ⟨table, found, rfl⟩ := Option.map_eq_some_iff.mp there
      simp only [Object.children, List.mapM_map] at measured
      exact memoryOfTable?_eq_some_iff.mpr ⟨table, found, parts, measured, rfl⟩

/-- An object that has a tree has an amount of memory, and so have its
parts. -/
theorem exists_memory? (consistent : store.Consistent) {tree : Tree}
    (unfolds : store.unfolding? handle = some tree) :
    ∃ parts, (store.children handle).mapM (store.memory? allocation) =
        some parts ∧
      ∃ own > 0, store.memory? allocation handle = some (own + parts.sum) := by
  -- the induction is on the size of the tree, which the parts do not reach
  induction size : sizeOf tree using Nat.strongRecOn
    generalizing handle tree with
  | _ size induction =>
      subst size
      obtain ⟨object, there, -⟩ :=
        (unfolding?_eq_some_iff_assembles consistent).mp unfolds
      have partMeasures : ∀ part ∈ store.children handle,
          (store.memory? allocation part).isSome := by
        intro part owns
        obtain ⟨tree', unfoldsPart, smaller⟩ :=
          exists_unfolding?_of_owns consistent unfolds owns
        obtain ⟨_, -, _, -, measured⟩ :=
          induction _ smaller unfoldsPart rfl
        exact Option.isSome_of_eq_some measured
      obtain ⟨parts, measured⟩ :=
        Option.isSome_iff_exists.mp (isSome_mapM.mpr partMeasures)
      refine ⟨parts, measured, _, object.ownMemory_pos allocation handle, ?_⟩
      rw [children_of_object?_eq_some there] at measured
      exact memory?_eq_some_of_parts consistent
        (Option.isSome_of_eq_some unfolds) there measured

/-- A part that is held has less memory than its owner. -/
theorem exists_memory?_of_owns (consistent : store.Consistent) {tree : Tree}
    (unfolds : store.unfolding? handle = some tree) {part : Handle}
    (owns : store.Owns handle part) {memory : Nat}
    (measured : store.memory? allocation handle = some memory) :
    ∃ less < memory, store.memory? allocation part = some less := by
  obtain ⟨parts, partsMeasured, own, positive, total⟩ :=
    exists_memory? consistent unfolds
  cases measured.symm.trans total
  have among : store.memory? allocation part ∈ parts.map some :=
    mapM_eq_some_iff.mp partsMeasured ▸ List.mem_map_of_mem owns
  obtain ⟨less, member, found⟩ := List.mem_map.mp among
  have bounded : less ≤ parts.sum := List.le_sum_of_mem member
  exact ⟨less, by omega, found.symm⟩

/-- So has a part at the end of a path. -/
theorem exists_memory?_of_transGen (consistent : store.Consistent)
    {tree : Tree} (unfolds : store.unfolding? handle = some tree)
    {part : Handle} (below : Relation.TransGen store.Owns handle part)
    {memory : Nat}
    (measured : store.memory? allocation handle = some memory) :
    ∃ less < memory, store.memory? allocation part = some less := by
  induction below with
  | single owns => exact exists_memory?_of_owns consistent unfolds owns measured
  | tail above owns induction =>
      obtain ⟨middle, middleLess, middleMeasured⟩ := induction
      obtain ⟨tree', unfoldsMiddle, -⟩ :=
        exists_unfolding?_of_transGen consistent unfolds above
      obtain ⟨less, partLess, partMeasured⟩ :=
        exists_memory?_of_owns consistent unfoldsMiddle owns middleMeasured
      exact ⟨less, partLess.trans middleLess, partMeasured⟩

/-- The memory of an object is more than that of all its parts together, a part
that is held twice counted twice, and therefore more than that of any part at
the end of a path.  This holds on every machine and however much room texts and
containers have reserved, and for the footprint. -/
theorem memory_counts_every_part (operations : List Operation)
    (allocation : Allocation) {handle : Handle}
    (has : (run {} operations).Has handle)
    (acyclic : (run {} operations).AcyclicFrom handle) :
    let store := run {} operations
    ∃ memory, store.memory? allocation handle = some memory ∧
      (∃ parts,
        (store.children handle).mapM (store.memory? allocation) = some parts ∧
          parts.sum < memory) ∧
      (∀ part, Relation.TransGen store.Owns handle part →
        ∃ less < memory, store.memory? allocation part = some less) ∧
      ∃ tree, store.unfolding? handle = some tree ∧
        store.footprint handle = .ok tree.footprint ∧
        store.memory? .tight handle = some tree.footprint := by
  intro store
  have consistent : store.Consistent := consistent_run operations
  obtain ⟨tree, unfolds⟩ :=
    (exists_unfolding?_iff consistent (closed_run operations)).mpr
      ⟨has, acyclic⟩
  obtain ⟨parts, measured, own, positive, total⟩ :=
    @exists_memory? store allocation handle consistent tree unfolds
  refine ⟨own + parts.sum, total, ⟨parts, measured, ?_⟩, ?_, ?_⟩
  · omega
  · intro part below
    exact exists_memory?_of_transGen consistent unfolds below total
  · exact ⟨tree, unfolds, footprint_eq_ok consistent unfolds,
      by rw [memory?_tight_eq consistent, unfolds, Option.map_some]⟩

/-- A block that holds one annotation twice. -/
theorem memory_counts_repeated_note :
    let store := run {}
      [.newList, .newNote "author" (.list ⟨0⟩), .newBlock,
        .add (.block ⟨0⟩) none (.note ⟨0⟩), .add (.block ⟨0⟩) none (.note ⟨0⟩)]
    store.memory? .tight (.note ⟨0⟩) = some 102 ∧
      ∃ memory > 102 + 102,
        store.memory? .tight (.block ⟨0⟩) = some memory := by
  intro store
  have unfolds : store.unfolding? (.block ⟨0⟩) =
      some (.annotationBlock [⟨"author", []⟩, ⟨"author", []⟩]) := rfl
  obtain ⟨memory, total, ⟨parts, measured, more⟩, -⟩ :=
    @memory_counts_every_part
      [.newList, .newNote "author" (.list ⟨0⟩), .newBlock,
        .add (.block ⟨0⟩) none (.note ⟨0⟩), .add (.block ⟨0⟩) none (.note ⟨0⟩)]
      .tight (.block ⟨0⟩)
      (has_of_unfolding?_eq_some (consistent_run _) unfolds)
      (acyclicFrom_of_unfolding?_eq_some (consistent_run _) unfolds)
  have both : some [102, 102] = some parts := measured
  cases both
  exact ⟨rfl, memory, more, total⟩

end Store

end MaterialGraph
