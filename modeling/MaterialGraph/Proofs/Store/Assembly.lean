import MaterialGraph.Proofs.Store.Placement
import Mathlib.Logic.Basic

/-!
# The tree of an object and the trees of its parts

An object has a tree exactly if its parts have trees, and its own tree is put
together from theirs.  It is larger than they are.  Therefore objects that are
the same in two stores, with everything that they hold, have the same trees in
both.
-/

namespace MaterialGraph

/-- The tree of an object, given the trees of what it holds. -/
inductive Object.Assembles : Object → List Tree → Tree → Prop
  | leaf {node : Node} {expression : Expression}
      (alone : node.expand? (fun _ => none) = some expression) :
      Assembles (.node node) [] (.expression expression)
  | directCall {type : ValueType} {tag : Tag} {list : ListId}
      (arguments : Arguments) :
      Assembles (.node (.directCall type tag list)) [.arguments arguments]
        (.expression (.directCall type tag arguments))
  | list {list : Named NodeId} {arguments : Arguments}
      (names : arguments.map Prod.fst = list.names.toList) :
      Assembles (.list list) (arguments.map fun entry => .expression entry.2)
        (.arguments arguments)
  | note {note : Note} (arguments : Arguments) :
      Assembles (.note note) [.arguments arguments]
        (.annotationCall ⟨note.name, arguments⟩)
  | block {notes : Array NoteId} (calls : AnnotationBlock) :
      Assembles (.block notes) (calls.map .annotationCall)
        (.annotationBlock calls)
  | table {table : Named BlockId} {entries : AnnotationTable}
      (names : entries.map Prod.fst = table.names.toList) :
      Assembles (.table table)
        (entries.map fun entry => .annotationBlock entry.2)
        (.annotationTable entries)

/-- A tree is larger than the trees that it is put together from. -/
theorem Object.Assembles.sizeOf_lt {object : Object} {trees : List Tree}
    {tree part : Tree} (assembles : object.Assembles trees tree)
    (member : part ∈ trees) : sizeOf part < sizeOf tree := by
  cases assembles with
  | leaf => cases member
  | directCall =>
      cases List.mem_singleton.mp member
      simp only [Tree.arguments.sizeOf_spec, Tree.expression.sizeOf_spec,
        Expression.directCall.sizeOf_spec]
      omega
  | note =>
      cases List.mem_singleton.mp member
      simp only [Tree.arguments.sizeOf_spec, Tree.annotationCall.sizeOf_spec,
        AnnotationCall.mk.sizeOf_spec]
      omega
  | list =>
      obtain ⟨⟨name, root⟩, inside, rfl⟩ := List.mem_map.mp member
      have smaller := List.sizeOf_lt_of_mem inside
      simp only [Prod.mk.sizeOf_spec] at smaller
      simp only [Tree.arguments.sizeOf_spec, Tree.expression.sizeOf_spec]
      omega
  | block =>
      obtain ⟨call, inside, rfl⟩ := List.mem_map.mp member
      have smaller := List.sizeOf_lt_of_mem inside
      simp only [Tree.annotationCall.sizeOf_spec,
        Tree.annotationBlock.sizeOf_spec]
      omega
  | table =>
      obtain ⟨⟨name, block⟩, inside, rfl⟩ := List.mem_map.mp member
      have smaller := List.sizeOf_lt_of_mem inside
      simp only [Prod.mk.sizeOf_spec] at smaller
      simp only [Tree.annotationBlock.sizeOf_spec,
        Tree.annotationTable.sizeOf_spec]
      omega

section Entries

variable {α β γ δ : Type} {change : α → Option β}

theorem mapM_eq_some_iff {children : List α} {found : List β} :
    children.mapM change = some found ↔
      children.map change = found.map some := by
  induction children generalizing found with
  | nil => cases found <;> simp
  | cons child rest induction =>
      rw [mapM_cons_eq_some_iff]
      cases found with
      | nil => simp
      | cons first others => simp [induction]

theorem mapEntries?_zip_eq_some_iff {names : List String} {children : List α}
    (sameLength : names.length = children.length)
    {changed : List (String × β)} :
    mapEntries? change (names.zip children) = some changed ↔
      changed.map Prod.fst = names ∧
        children.map change = changed.map fun entry => some entry.2 := by
  induction children generalizing names changed with
  | nil =>
      cases List.length_eq_zero_iff.mp sameLength
      cases changed <;> simp [mapEntries?]
  | cons child rest induction =>
      cases names with
      | nil => cases sameLength
      | cons name names =>
          rw [List.zip_cons_cons, mapEntries?_cons_eq_some_iff]
          simp only [induction (Nat.succ.inj sameLength)]
          constructor
          · rintro ⟨first, foundFirst, others, ⟨names, foundOthers⟩, rfl⟩
            simp [foundFirst, names, foundOthers]
          · rintro ⟨sameNames, found⟩
            cases changed with
            | nil => cases sameNames
            | cons first others =>
                obtain ⟨rfl, restNames⟩ := List.cons.inj sameNames
                obtain ⟨foundFirst, foundOthers⟩ := List.cons.inj found
                exact ⟨_, foundFirst, others, ⟨restNames, foundOthers⟩, rfl⟩

/-- Wrapped results are the given ones if the results are. -/
theorem map_map_eq_iff {wrap : β → γ} (injective : wrap.Injective)
    {children : List α} {found : List δ} {result : δ → β} :
    children.map (fun child => (change child).map wrap) =
        (found.map fun item => wrap (result item)).map some ↔
      children.map change = found.map fun item => some (result item) := by
  have wrapped : ∀ {item item' : Option β},
      item.map wrap = item'.map wrap → item = item' :=
    fun same => Option.map_injective injective same
  rw [← List.map_inj_right (fun _ _ => wrapped)]
  simp [Function.comp_def]

theorem isSome_mapM {children : List α} :
    (children.mapM change).isSome ↔
      ∀ child ∈ children, (change child).isSome := by
  induction children with
  | nil => simp
  | cons child rest induction =>
      rw [List.forall_mem_cons, ← induction, List.mapM_cons]
      cases change child <;> cases rest.mapM change <;> simp

end Entries

namespace Store

/-- The parts of an object have trees, and together they make a given tree. -/
def Assembles (store : Store) (object : Object) (tree : Tree) : Prop :=
  ∃ trees, object.children.map store.unfolding? = trees.map some ∧
    object.Assembles trees tree

variable {store : Store} {handle : Handle} {tree : Tree}

/-- The room that a search is given is that of every search below it. -/
theorem unfoldNode?_size_eq_some_iff {id : NodeId} {expression : Expression} :
    store.unfoldNode? store.nodes.size id = some expression ↔
      ∃ node, store.node? id = some node ∧
        node.expand? (store.expandList? (store.unfoldNode? store.nodes.size)) =
          some expression := by
  rw [← unfoldNode?_succ_eq_some_iff]
  constructor
  · exact fun found => unfoldNode?_extendedBy (Nat.le_succ _) found
  · exact fun found => store.unfoldNode?_extendedBy_size _ found

theorem unfolding?_node_eq_some_iff {id : NodeId} :
    store.unfolding? (.node id) = some tree ↔
      ∃ node, store.node? id = some node ∧
        store.Assembles (.node node) tree := by
  constructor
  · intro unfolds
    obtain ⟨root, found, rfl⟩ := Option.map_eq_some_iff.mp unfolds
    obtain ⟨node, there, expanded⟩ := unfoldNode?_size_eq_some_iff.mp found
    cases node with
    | constant | call | parameter | temporary =>
        exact ⟨_, there, [], rfl, .leaf expanded⟩
    | directCall type tag list =>
        obtain ⟨arguments, entries, rfl⟩ :=
          Node.expand?_directCall_eq_some_iff.mp expanded
        refine ⟨_, there, [.arguments arguments], ?_, .directCall arguments⟩
        exact congrArg (fun found => [found.map Tree.arguments]) entries
  · rintro ⟨node, there, trees, parts, assembles⟩
    refine Option.map_eq_some_iff.mpr ?_
    cases assembles with
    | leaf alone =>
        refine ⟨_, unfoldNode?_size_eq_some_iff.mpr ⟨node, there, ?_⟩, rfl⟩
        exact Node.expand?_extendedBy (fun _ _ found => by cases found) alone
    | directCall arguments =>
        obtain ⟨_, entries, same⟩ :=
          Option.map_eq_some_iff.mp (List.cons.inj parts).1
        cases same
        refine ⟨_, unfoldNode?_size_eq_some_iff.mpr ⟨_, there, ?_⟩, rfl⟩
        exact Node.expand?_directCall_eq_some_iff.mpr ⟨arguments, entries, rfl⟩

theorem unfolding?_list_eq_some_iff (consistent : store.Consistent)
    {id : ListId} :
    store.unfolding? (.list id) = some tree ↔
      ∃ list, store.list? id = some list ∧
        store.Assembles (.list list) tree := by
  constructor
  · intro unfolds
    obtain ⟨arguments, found, rfl⟩ := Option.map_eq_some_iff.mp unfolds
    obtain ⟨list, there, entries⟩ := expandList?_eq_some_iff.mp found
    obtain ⟨names, roots⟩ :=
      (mapEntries?_zip_eq_some_iff (consistent.lists there).length_names).mp
        entries
    refine ⟨list, there, _, ?_, .list names⟩
    rw [Object.children, List.map_map]
    exact (map_map_eq_iff fun _ _ => Tree.expression.inj).mpr roots
  · rintro ⟨list, there, trees, parts, assembles⟩
    cases assembles with
    | list names =>
        rw [Object.children, List.map_map] at parts
        have roots := (map_map_eq_iff fun _ _ => Tree.expression.inj).mp parts
        have entries :=
          (mapEntries?_zip_eq_some_iff (consistent.lists there).length_names).mpr
            ⟨names, roots⟩
        exact Option.map_eq_some_iff.mpr
          ⟨_, expandList?_eq_some_iff.mpr ⟨list, there, entries⟩, rfl⟩

theorem unfolding?_note_eq_some_iff {id : NoteId} :
    store.unfolding? (.note id) = some tree ↔
      ∃ note, store.note? id = some note ∧
        store.Assembles (.note note) tree := by
  constructor
  · intro unfolds
    obtain ⟨call, found, rfl⟩ := Option.map_eq_some_iff.mp unfolds
    obtain ⟨note, there, arguments, entries, rfl⟩ :=
      expandNote?_eq_some_iff.mp found
    refine ⟨note, there, [.arguments arguments], ?_, .note arguments⟩
    exact congrArg (fun found => [found.map Tree.arguments]) entries
  · rintro ⟨note, there, trees, parts, assembles⟩
    cases assembles with
    | note arguments =>
        obtain ⟨_, entries, same⟩ :=
          Option.map_eq_some_iff.mp (List.cons.inj parts).1
        cases same
        exact Option.map_eq_some_iff.mpr ⟨_, expandNote?_eq_some_iff.mpr
          ⟨note, there, arguments, entries, rfl⟩, rfl⟩

theorem unfolding?_block_eq_some_iff {id : BlockId} :
    store.unfolding? (.block id) = some tree ↔
      ∃ notes, store.block? id = some notes ∧
        store.Assembles (.block notes) tree := by
  constructor
  · intro unfolds
    obtain ⟨calls, found, rfl⟩ := Option.map_eq_some_iff.mp unfolds
    obtain ⟨notes, there, expanded⟩ := expandBlock?_eq_some_iff.mp found
    refine ⟨notes, there, _, ?_, .block calls⟩
    rw [Object.children, List.map_map]
    exact (map_map_eq_iff fun _ _ => Tree.annotationCall.inj).mpr
      (mapM_eq_some_iff.mp expanded)
  · rintro ⟨notes, there, trees, parts, assembles⟩
    cases assembles with
    | block calls =>
        rw [Object.children, List.map_map] at parts
        have found := (map_map_eq_iff fun _ _ => Tree.annotationCall.inj).mp parts
        exact Option.map_eq_some_iff.mpr ⟨calls, expandBlock?_eq_some_iff.mpr
          ⟨notes, there, mapM_eq_some_iff.mpr found⟩, rfl⟩

theorem unfolding?_table_eq_some_iff (consistent : store.Consistent)
    {id : TableId} :
    store.unfolding? (.table id) = some tree ↔
      ∃ table, store.table? id = some table ∧
        store.Assembles (.table table) tree := by
  constructor
  · intro unfolds
    obtain ⟨entries, found, rfl⟩ := Option.map_eq_some_iff.mp unfolds
    obtain ⟨table, there, expanded⟩ := expandTable?_eq_some_iff.mp found
    obtain ⟨names, blocks⟩ :=
      (mapEntries?_zip_eq_some_iff (consistent.tables there).length_names).mp
        expanded
    refine ⟨table, there, _, ?_, .table names⟩
    rw [Object.children, List.map_map]
    exact (map_map_eq_iff fun _ _ => Tree.annotationBlock.inj).mpr blocks
  · rintro ⟨table, there, trees, parts, assembles⟩
    cases assembles with
    | table names =>
        rw [Object.children, List.map_map] at parts
        have blocks :=
          (map_map_eq_iff fun _ _ => Tree.annotationBlock.inj).mp parts
        have expanded :=
          (mapEntries?_zip_eq_some_iff
            (consistent.tables there).length_names).mpr ⟨names, blocks⟩
        exact Option.map_eq_some_iff.mpr
          ⟨_, expandTable?_eq_some_iff.mpr ⟨table, there, expanded⟩, rfl⟩

/-- The tree of an object is put together from the trees of its parts. -/
theorem unfolding?_eq_some_iff_assembles (consistent : store.Consistent) :
    store.unfolding? handle = some tree ↔
      ∃ object, store.object? handle = some object ∧
        store.Assembles object tree := by
  cases handle with
  | node id => simp [object?, unfolding?_node_eq_some_iff]
  | list id => simp [object?, unfolding?_list_eq_some_iff consistent]
  | note id => simp [object?, unfolding?_note_eq_some_iff]
  | block id => simp [object?, unfolding?_block_eq_some_iff]
  | table id => simp [object?, unfolding?_table_eq_some_iff consistent]

/-- The parts of an object that has a tree have smaller trees. -/
theorem exists_unfolding?_of_owns (consistent : store.Consistent)
    (unfolds : store.unfolding? handle = some tree) {part : Handle}
    (owns : store.Owns handle part) :
    ∃ tree', store.unfolding? part = some tree' ∧
      sizeOf tree' < sizeOf tree := by
  obtain ⟨object, there, trees, parts, assembles⟩ :=
    (unfolding?_eq_some_iff_assembles consistent).mp unfolds
  rw [Owns, children_of_object?_eq_some there] at owns
  have member : store.unfolding? part ∈ trees.map some :=
    parts ▸ List.mem_map_of_mem owns
  obtain ⟨tree', inside, found⟩ := List.mem_map.mp member
  exact ⟨tree', found.symm, assembles.sizeOf_lt inside⟩

section Existence

variable {node? : NodeId → Option Expression}

theorem isSome_expandList? {id : ListId} {list : Named NodeId}
    (there : store.list? id = some list)
    (roots : ∀ child ∈ list.children.toList, (node? child).isSome) :
    (store.expandList? node? id).isSome := by
  simp only [expandList?, there, Option.bind_eq_bind, Option.bind_some]
  exact isSome_mapEntries?.mpr fun entry member =>
    roots entry.2 (List.of_mem_zip member).2

/-- All entries of a list that has a tree have trees. -/
theorem isSome_of_expandList? (consistent : store.Consistent)
    {id : ListId} {list : Named NodeId} (there : store.list? id = some list)
    (unfolds : (store.expandList? node? id).isSome) :
    ∀ child ∈ list.children.toList, (node? child).isSome := by
  simp only [expandList?, there, Option.bind_eq_bind, Option.bind_some]
    at unfolds
  rw [← (consistent.lists there).children_toList, List.forall_mem_map]
  exact isSome_mapEntries?.mp unfolds

theorem isSome_expandNote? {id : NoteId} {note : Note}
    (there : store.note? id = some note)
    (arguments : (store.expandList? node? note.arguments).isSome) :
    (store.expandNote? node? id).isSome := by
  obtain ⟨found, expanded⟩ := Option.isSome_iff_exists.mp arguments
  exact Option.isSome_of_eq_some
    (expandNote?_eq_some_iff.mpr ⟨note, there, found, expanded, rfl⟩)

theorem isSome_expandBlock? {id : BlockId} {notes : Array NoteId}
    (there : store.block? id = some notes)
    (calls : ∀ child ∈ notes.toList, (store.expandNote? node? child).isSome) :
    (store.expandBlock? node? id).isSome := by
  simp only [expandBlock?, there, Option.bind_eq_bind, Option.bind_some]
  exact isSome_mapM.mpr calls

theorem isSome_expandTable? {id : TableId} {table : Named BlockId}
    (there : store.table? id = some table)
    (blocks : ∀ child ∈ table.children.toList,
      (store.expandBlock? node? child).isSome) :
    (store.expandTable? node? id).isSome := by
  simp only [expandTable?, there, Option.bind_eq_bind, Option.bind_some]
  exact isSome_mapEntries?.mpr fun entry member =>
    blocks entry.2 (List.of_mem_zip member).2

theorem isSome_unfoldNode?_size {id : NodeId} {node : Node}
    (there : store.node? id = some node)
    (arguments : ∀ list, .list list ∈ (Object.node node).children →
      (store.expandList? (store.unfoldNode? store.nodes.size) list).isSome) :
    (store.unfoldNode? store.nodes.size id).isSome := by
  have expanded : ∃ expression, node.expand?
      (store.expandList? (store.unfoldNode? store.nodes.size)) =
        some expression := by
    cases node with
    | constant | call | parameter | temporary => exact ⟨_, rfl⟩
    | directCall type tag list =>
        obtain ⟨found, entries⟩ := Option.isSome_iff_exists.mp
          (arguments list (List.mem_singleton_self _))
        exact ⟨_, Node.expand?_directCall_eq_some_iff.mpr
          ⟨found, entries, rfl⟩⟩
  obtain ⟨expression, expanded⟩ := expanded
  exact Option.isSome_of_eq_some
    (unfoldNode?_size_eq_some_iff.mpr ⟨node, there, expanded⟩)

/-- An object has a tree if its parts have trees. -/
theorem isSome_unfolding?_of_parts (has : store.Has handle)
    (parts : ∀ part, store.Owns handle part → (store.unfolding? part).isSome) :
    (store.unfolding? handle).isSome := by
  obtain ⟨object, there⟩ := Option.isSome_iff_exists.mp has
  simp only [Owns, children_of_object?_eq_some there] at parts
  cases handle with
  | node id =>
      obtain ⟨node, found, rfl⟩ := Option.map_eq_some_iff.mp there
      simp only [unfolding?, expand?, Option.map_eq_map, Option.isSome_map]
      refine isSome_unfoldNode?_size found fun list held => ?_
      simpa [unfolding?, expand?] using parts (.list list) held
  | list id =>
      obtain ⟨list, found, rfl⟩ := Option.map_eq_some_iff.mp there
      simp only [unfolding?, expand?, Option.map_eq_map, Option.isSome_map]
      refine isSome_expandList? found fun child member => ?_
      simpa [unfolding?, expand?] using
        parts (.node child) (List.mem_map_of_mem member)
  | note id =>
      obtain ⟨note, found, rfl⟩ := Option.map_eq_some_iff.mp there
      simp only [unfolding?, expand?, Option.map_eq_map, Option.isSome_map]
      refine isSome_expandNote? found ?_
      simpa [unfolding?, expand?] using
        parts (.list note.arguments) (List.mem_singleton_self _)
  | block id =>
      obtain ⟨notes, found, rfl⟩ := Option.map_eq_some_iff.mp there
      simp only [unfolding?, expand?, Option.map_eq_map, Option.isSome_map]
      refine isSome_expandBlock? found fun child member => ?_
      simpa [unfolding?, expand?] using
        parts (.note child) (List.mem_map_of_mem member)
  | table id =>
      obtain ⟨table, found, rfl⟩ := Option.map_eq_some_iff.mp there
      simp only [unfolding?, expand?, Option.map_eq_map, Option.isSome_map]
      refine isSome_expandTable? found fun child member => ?_
      simpa [unfolding?, expand?] using
        parts (.block child) (List.mem_map_of_mem member)

end Existence

/-- Everything below an object is the same in another store. -/
def SameBelow (store : Store) (handle : Handle) (changed : Store) : Prop :=
  ∀ part, store.Reaches handle part →
    changed.object? part = store.object? part

/-- An object has the same tree where everything below it is the same. -/
theorem SameBelow.unfolding?_eq_some {changed : Store}
    (same : store.SameBelow handle changed) (consistent : store.Consistent)
    (consistent' : changed.Consistent)
    (unfolds : store.unfolding? handle = some tree) :
    changed.unfolding? handle = some tree := by
  -- the induction is on the size of the tree, which the parts do not reach
  induction size : sizeOf tree using Nat.strongRecOn
    generalizing handle tree with
  | _ size induction =>
      subst size
      obtain ⟨object, there, trees, parts, assembles⟩ :=
        (unfolding?_eq_some_iff_assembles consistent).mp unfolds
      refine (unfolding?_eq_some_iff_assembles consistent').mpr
        ⟨object, (same handle .refl).trans there, trees, ?_, assembles⟩
      rw [← parts]
      refine List.map_congr_left fun part held => ?_
      have owns : store.Owns handle part := by
        rwa [Owns, children_of_object?_eq_some there]
      obtain ⟨tree', unfoldsPart, smaller⟩ :=
        exists_unfolding?_of_owns consistent unfolds owns
      have samePart : store.SameBelow part changed :=
        fun inner reaches => same inner (.head owns reaches)
      rw [unfoldsPart]
      exact induction _ smaller samePart unfoldsPart rfl

end Store

end MaterialGraph
