import MaterialGraph.Store.Unfold

/-!
# Unfolding finds the tree of every object that has one

A search along paths that is given more room, or a larger store, finds what it
found before.  It needs no more room than there are expressions: on a longest
path every expression has a height of its own.  So an object without an
unfolding owns itself, or refers to something that is not there.
-/

namespace MaterialGraph

/-- Wherever one function is defined, the other has the same value. -/
def ExtendedBy {α β : Type} (known larger : α → Option β) : Prop :=
  ∀ ⦃key : α⦄ ⦃found : β⦄, known key = some found → larger key = some found

namespace ExtendedBy

theorem refl {α β : Type} (known : α → Option β) : ExtendedBy known known :=
  fun _ _ found => found

theorem trans {α β : Type} {known larger largest : α → Option β}
    (first : ExtendedBy known larger) (second : ExtendedBy larger largest) :
    ExtendedBy known largest :=
  fun _ _ found => second (first found)

end ExtendedBy

section Entries

variable {α β : Type} {change larger : α → Option β}

theorem mapEntries?_cons_eq_some_iff {name : String} {child : α}
    {rest : List (String × α)} {changed : List (String × β)} :
    mapEntries? change ((name, child) :: rest) = some changed ↔
      ∃ found, change child = some found ∧
        ∃ others, mapEntries? change rest = some others ∧
          (name, found) :: others = changed := by
  simp [mapEntries?, Option.bind_eq_some_iff]

theorem isSome_mapEntries? {entries : List (String × α)} :
    (mapEntries? change entries).isSome ↔
      ∀ entry ∈ entries, (change entry.2).isSome := by
  induction entries with
  | nil => simp [mapEntries?]
  | cons entry rest induction =>
      obtain ⟨name, child⟩ := entry
      rw [List.forall_mem_cons, ← induction, mapEntries?]
      cases change child <;> cases mapEntries? change rest <;> simp

theorem mapEntries?_extendedBy (extended : ExtendedBy change larger) :
    ExtendedBy (mapEntries? change) (mapEntries? larger) := by
  intro entries changed result
  induction entries generalizing changed with
  | nil => exact result
  | cons entry rest induction =>
      rw [mapEntries?_cons_eq_some_iff] at result ⊢
      obtain ⟨child, foundChild, others, foundOthers, same⟩ := result
      exact ⟨child, extended foundChild, others, induction foundOthers, same⟩

theorem mapM_cons_eq_some_iff {child : α} {rest : List α} {changed : List β} :
    (child :: rest).mapM change = some changed ↔
      ∃ found, change child = some found ∧
        ∃ others, rest.mapM change = some others ∧
          found :: others = changed := by
  simp [List.mapM_cons, Option.bind_eq_some_iff]

theorem mapM_extendedBy (extended : ExtendedBy change larger) :
    ExtendedBy (List.mapM change) (List.mapM larger) := by
  intro children changed result
  induction children generalizing changed with
  | nil => exact result
  | cons child rest induction =>
      rw [mapM_cons_eq_some_iff] at result ⊢
      obtain ⟨found, foundChild, others, foundOthers, same⟩ := result
      exact ⟨found, extended foundChild, others, induction foundOthers, same⟩

end Entries

namespace Node

theorem expand?_directCall_eq_some_iff {arguments? : ListId → Option Arguments}
    {type : ValueType} {tag : Tag} {list : ListId} {expression : Expression} :
    expand? arguments? (.directCall type tag list) = some expression ↔
      ∃ arguments, arguments? list = some arguments ∧
        .directCall type tag arguments = expression := by
  simp [expand?, Option.bind_eq_some_iff]

theorem expand?_extendedBy {arguments? larger : ListId → Option Arguments}
    (extended : ExtendedBy arguments? larger) :
    ExtendedBy (Node.expand? arguments?) (Node.expand? larger) := by
  intro node expression result
  cases node with
  | directCall type tag list =>
      rw [expand?_directCall_eq_some_iff] at result ⊢
      obtain ⟨arguments, found, same⟩ := result
      exact ⟨arguments, extended found, same⟩
  | constant | call | parameter | temporary => exact result

theorem expand?_kind {arguments? : ListId → Option Arguments} {node : Node}
    {expression : Expression}
    (expanded : node.expand? arguments? = some expression) :
    expression.kind = node.kind := by
  cases node with
  | directCall type tag list =>
      obtain ⟨arguments, -, rfl⟩ := expand?_directCall_eq_some_iff.mp expanded
      rfl
  | constant | call | parameter | temporary =>
      cases expanded
      rfl

theorem expand?_type {arguments? : ListId → Option Arguments} {node : Node}
    {expression : Expression}
    (expanded : node.expand? arguments? = some expression) :
    expression.type = node.type := by
  cases node with
  | directCall type tag list =>
      obtain ⟨arguments, -, rfl⟩ := expand?_directCall_eq_some_iff.mp expanded
      rfl
  | constant | call | parameter | temporary =>
      cases expanded
      rfl

end Node

namespace Store

section Inversion

variable {store : Store} {node? : NodeId → Option Expression}

theorem expandList?_eq_some_iff {id : ListId} {arguments : Arguments} :
    store.expandList? node? id = some arguments ↔
      ∃ list, store.list? id = some list ∧
        mapEntries? node? list.toList = some arguments := by
  simp [expandList?, Option.bind_eq_some_iff]

theorem expandNote?_eq_some_iff {id : NoteId} {call : AnnotationCall} :
    store.expandNote? node? id = some call ↔
      ∃ note, store.note? id = some note ∧
        ∃ arguments, store.expandList? node? note.arguments = some arguments ∧
          ⟨note.name, arguments⟩ = call := by
  simp [expandNote?, Option.bind_eq_some_iff]

theorem expandBlock?_eq_some_iff {id : BlockId} {calls : AnnotationBlock} :
    store.expandBlock? node? id = some calls ↔
      ∃ notes, store.block? id = some notes ∧
        notes.toList.mapM (store.expandNote? node?) = some calls := by
  simp [expandBlock?, Option.bind_eq_some_iff]

theorem expandTable?_eq_some_iff {id : TableId} {entries : AnnotationTable} :
    store.expandTable? node? id = some entries ↔
      ∃ table, store.table? id = some table ∧
        mapEntries? (store.expandBlock? node?) table.toList = some entries := by
  simp [expandTable?, Option.bind_eq_some_iff]

theorem unfoldNode?_succ_eq_some_iff {length : Nat} {id : NodeId}
    {expression : Expression} :
    store.unfoldNode? (length + 1) id = some expression ↔
      ∃ node, store.node? id = some node ∧
        node.expand? (store.expandList? (store.unfoldNode? length)) =
          some expression := by
  simp [unfoldNode?, Option.bind_eq_some_iff]

end Inversion

/-- Everything in one store is in the other, with the same identity and
unchanged. -/
structure GrowsTo (old new : Store) : Prop where
  nodes : ExtendedBy old.node? new.node?
  lists : ExtendedBy old.list? new.list?
  notes : ExtendedBy old.note? new.note?
  blocks : ExtendedBy old.block? new.block?
  tables : ExtendedBy old.table? new.table?

namespace GrowsTo

theorem refl (store : Store) : store.GrowsTo store :=
  ⟨.refl _, .refl _, .refl _, .refl _, .refl _⟩

theorem trans {old middle new : Store} (first : old.GrowsTo middle)
    (second : middle.GrowsTo new) : old.GrowsTo new :=
  ⟨first.nodes.trans second.nodes, first.lists.trans second.lists,
    first.notes.trans second.notes, first.blocks.trans second.blocks,
    first.tables.trans second.tables⟩

variable {old new : Store} {node? larger : NodeId → Option Expression}

theorem expandList? (grows : old.GrowsTo new)
    (extended : ExtendedBy node? larger) :
    ExtendedBy (old.expandList? node?) (new.expandList? larger) := by
  intro id arguments result
  rw [expandList?_eq_some_iff] at result ⊢
  obtain ⟨list, found, entries⟩ := result
  exact ⟨list, grows.lists found, mapEntries?_extendedBy extended entries⟩

theorem expandNote? (grows : old.GrowsTo new)
    (extended : ExtendedBy node? larger) :
    ExtendedBy (old.expandNote? node?) (new.expandNote? larger) := by
  intro id call result
  rw [expandNote?_eq_some_iff] at result ⊢
  obtain ⟨note, found, arguments, entries, same⟩ := result
  exact ⟨note, grows.notes found, arguments, grows.expandList? extended entries,
    same⟩

theorem expandBlock? (grows : old.GrowsTo new)
    (extended : ExtendedBy node? larger) :
    ExtendedBy (old.expandBlock? node?) (new.expandBlock? larger) := by
  intro id calls result
  rw [expandBlock?_eq_some_iff] at result ⊢
  obtain ⟨notes, found, entries⟩ := result
  exact ⟨notes, grows.blocks found,
    mapM_extendedBy (grows.expandNote? extended) entries⟩

theorem expandTable? (grows : old.GrowsTo new)
    (extended : ExtendedBy node? larger) :
    ExtendedBy (old.expandTable? node?) (new.expandTable? larger) := by
  intro id entries result
  rw [expandTable?_eq_some_iff] at result ⊢
  obtain ⟨table, found, blocks⟩ := result
  exact ⟨table, grows.tables found,
    mapEntries?_extendedBy (grows.expandBlock? extended) blocks⟩

theorem expand? (grows : old.GrowsTo new) (extended : ExtendedBy node? larger) :
    ExtendedBy (old.expand? node?) (new.expand? larger) := by
  intro handle tree result
  cases handle with
  | node id =>
      obtain ⟨root, found, rfl⟩ := Option.map_eq_some_iff.mp result
      exact Option.map_eq_some_iff.mpr ⟨root, extended found, rfl⟩
  | list id =>
      obtain ⟨entries, found, rfl⟩ := Option.map_eq_some_iff.mp result
      exact Option.map_eq_some_iff.mpr
        ⟨entries, grows.expandList? extended found, rfl⟩
  | note id =>
      obtain ⟨call, found, rfl⟩ := Option.map_eq_some_iff.mp result
      exact Option.map_eq_some_iff.mpr
        ⟨call, grows.expandNote? extended found, rfl⟩
  | block id =>
      obtain ⟨calls, found, rfl⟩ := Option.map_eq_some_iff.mp result
      exact Option.map_eq_some_iff.mpr
        ⟨calls, grows.expandBlock? extended found, rfl⟩
  | table id =>
      obtain ⟨entries, found, rfl⟩ := Option.map_eq_some_iff.mp result
      exact Option.map_eq_some_iff.mpr
        ⟨entries, grows.expandTable? extended found, rfl⟩

/-- More room on a path and a larger store lose nothing. -/
theorem unfoldNode? (grows : old.GrowsTo new) {length longer : Nat}
    (enough : length ≤ longer) :
    ExtendedBy (old.unfoldNode? length) (new.unfoldNode? longer) := by
  induction length generalizing longer with
  | zero =>
      intro id expression result
      cases result
  | succ length induction =>
      cases longer with
      | zero => cases enough
      | succ longer =>
          have shorter := induction (Nat.le_of_succ_le_succ enough)
          intro id expression result
          rw [unfoldNode?_succ_eq_some_iff] at result ⊢
          obtain ⟨node, found, expanded⟩ := result
          exact ⟨node, grows.nodes found,
            Node.expand?_extendedBy (grows.expandList? shorter) expanded⟩

end GrowsTo

theorem unfoldNode?_extendedBy {store : Store} {length longer : Nat}
    (enough : length ≤ longer) :
    ExtendedBy (store.unfoldNode? length) (store.unfoldNode? longer) :=
  (GrowsTo.refl store).unfoldNode? enough

/-- However much room it is given, a search finds the same tree. -/
theorem unfoldNode?_unique {store : Store} {length length' : Nat} {id : NodeId}
    {expression expression' : Expression}
    (found : store.unfoldNode? length id = some expression)
    (found' : store.unfoldNode? length' id = some expression') :
    expression = expression' := by
  have longer := unfoldNode?_extendedBy (Nat.le_max_left length length') found
  have longer' :=
    unfoldNode?_extendedBy (Nat.le_max_right length length') found'
  exact Option.some.inj (longer.symm.trans longer')

section Height

variable {store : Store}

/-- A path from the expression has `height` expressions, and none has more. -/
structure HasHeight (store : Store) (id : NodeId) (height : Nat) : Prop where
  bounded : (store.unfoldNode? height id).isSome
  attained : ∀ shorter < height, store.unfoldNode? shorter id = none

theorem hasHeight_succ {id : NodeId} {height : Nat}
    (unfolds : (store.unfoldNode? (height + 1) id).isSome)
    (tooShort : store.unfoldNode? height id = none) :
    store.HasHeight id (height + 1) := by
  refine ⟨unfolds, fun shorter less => ?_⟩
  rw [Option.eq_none_iff_forall_ne_some]
  intro expression found
  have later := unfoldNode?_extendedBy (Nat.le_of_lt_succ less) found
  rw [tooShort] at later
  cases later

theorem exists_hasHeight {length : Nat} {id : NodeId}
    (unfolds : (store.unfoldNode? length id).isSome) :
    ∃ height, store.HasHeight id height := by
  induction length with
  | zero => cases unfolds
  | succ length induction =>
      cases result : store.unfoldNode? length id with
      | some expression => exact induction (Option.isSome_of_eq_some result)
      | none => exact ⟨length + 1, hasHeight_succ unfolds result⟩

namespace HasHeight

theorem unique {id : NodeId} {height height' : Nat}
    (hasHeight : store.HasHeight id height)
    (hasHeight' : store.HasHeight id height') :
    height = height' := by
  have noLess : ∀ {low high : Nat}, store.HasHeight id low →
      store.HasHeight id high →
      ¬ low < high := by
    intro low high hasLow hasHigh less
    have bounded := hasLow.bounded
    rw [hasHigh.attained low less] at bounded
    cases bounded
  exact Nat.le_antisymm (Nat.le_of_not_lt (noLess hasHeight' hasHeight))
    (Nat.le_of_not_lt (noLess hasHeight hasHeight'))

theorem index_lt_size {id : NodeId} {height : Nat}
    (hasHeight : store.HasHeight id height) : id.index < store.nodes.size := by
  obtain ⟨expression, unfolds⟩ := Option.isSome_iff_exists.mp hasHeight.bounded
  cases height with
  | zero => cases unfolds
  | succ height =>
      obtain ⟨node, found, -⟩ := unfoldNode?_succ_eq_some_iff.mp unfolds
      exact (Array.getElem?_eq_some_iff.mp found).1

/-- Below an expression on a longest path is one whose height is one less. -/
theorem exists_child {id : NodeId} {height : Nat}
    (hasHeight : store.HasHeight id (height + 2)) :
    ∃ child, store.HasHeight child (height + 1) := by
  obtain ⟨expression, unfolds⟩ := Option.isSome_iff_exists.mp hasHeight.bounded
  obtain ⟨node, found, expanded⟩ := unfoldNode?_succ_eq_some_iff.mp unfolds
  have tooShort := hasHeight.attained (height + 1) (Nat.lt_succ_self _)
  simp only [Store.unfoldNode?, found, Option.bind_some] at tooShort
  cases node with
  | constant | call | parameter | temporary => cases tooShort
  | directCall type tag list =>
      obtain ⟨arguments, unfoldsList, rfl⟩ :=
        Node.expand?_directCall_eq_some_iff.mp expanded
      obtain ⟨named, foundList, entries⟩ :=
        expandList?_eq_some_iff.mp unfoldsList
      have allUnfold := isSome_mapEntries?.mp (Option.isSome_of_eq_some entries)
      apply Classical.byContradiction
      intro noChild
      -- if no argument were as high as that, less room would have been enough
      have allShorter : ∀ entry ∈ named.toList,
          (store.unfoldNode? height entry.2).isSome := by
        intro entry member
        cases result : store.unfoldNode? height entry.2 with
        | some child => rfl
        | none =>
            exact (noChild
              ⟨entry.2, hasHeight_succ (allUnfold entry member) result⟩).elim
      obtain ⟨changed, shorter⟩ :=
        Option.isSome_iff_exists.mp (isSome_mapEntries?.mpr allShorter)
      rw [Node.expand?_directCall_eq_some_iff.mpr
        ⟨changed, expandList?_eq_some_iff.mpr ⟨named, foundList, shorter⟩, rfl⟩]
        at tooShort
      cases tooShort

/-- Some expressions have the heights from one up to a given one. -/
theorem exists_chain {id : NodeId} {height : Nat}
    (hasHeight : store.HasHeight id (height + 1)) :
    ∃ chain : List Nat, chain.length = height + 1 ∧ chain.Nodup ∧
      ∀ index ∈ chain, ∃ low ≤ height + 1, store.HasHeight ⟨index⟩ low := by
  induction height generalizing id with
  | zero =>
      refine ⟨[id.index], rfl, by simp, fun index member => ?_⟩
      cases List.mem_singleton.mp member
      exact ⟨1, Nat.le_refl 1, hasHeight⟩
  | succ height induction =>
      obtain ⟨child, childHeight⟩ := hasHeight.exists_child
      obtain ⟨chain, length, distinct, heights⟩ := induction childHeight
      refine ⟨id.index :: chain, by simp [length], ?_, ?_⟩
      · rw [List.nodup_cons]
        refine ⟨fun member => ?_, distinct⟩
        obtain ⟨low, bound, lowHeight⟩ := heights id.index member
        cases hasHeight.unique lowHeight
        exact Nat.not_succ_le_self _ bound
      · rw [List.forall_mem_cons]
        refine ⟨⟨_, Nat.le_refl _, hasHeight⟩, fun index member => ?_⟩
        obtain ⟨low, bound, lowHeight⟩ := heights index member
        exact ⟨low, Nat.le_succ_of_le bound, lowHeight⟩

/-- No path has more expressions than there are. -/
theorem le_size {id : NodeId} {height : Nat}
    (hasHeight : store.HasHeight id height) :
    height ≤ store.nodes.size := by
  cases height with
  | zero => exact Nat.zero_le _
  | succ height =>
      obtain ⟨chain, length, distinct, heights⟩ := hasHeight.exists_chain
      have inRange : chain ⊆ List.range store.nodes.size := by
        intro index member
        obtain ⟨low, -, lowHeight⟩ := heights index member
        exact List.mem_range.mpr lowHeight.index_lt_size
      have short := distinct.length_le_of_subset inRange
      rwa [length, List.length_range] at short

end HasHeight

end Height

/-- The room that a search for a tree is given is always enough. -/
theorem unfoldNode?_extendedBy_size (store : Store) (length : Nat) :
    ExtendedBy (store.unfoldNode? length)
      (store.unfoldNode? store.nodes.size) := by
  intro id expression result
  obtain ⟨height, hasHeight⟩ :=
    exists_hasHeight (Option.isSome_of_eq_some result)
  obtain ⟨found, unfolds⟩ := Option.isSome_iff_exists.mp hasHeight.bounded
  have inSize := unfoldNode?_extendedBy hasHeight.le_size unfolds
  rw [unfoldNode?_unique result inSize]
  exact inSize

theorem unfolding?_eq_some_iff {store : Store} {handle : Handle} {tree : Tree} :
    store.unfolding? handle = some tree ↔
      ∃ length, store.expand? (store.unfoldNode? length) handle =
        some tree := by
  constructor
  · intro unfolds
    exact ⟨store.nodes.size, unfolds⟩
  · intro someLength
    rcases someLength with ⟨length, expanded⟩
    exact (GrowsTo.refl store).expand?
      (store.unfoldNode?_extendedBy_size length) expanded

/-- An object keeps its tree while nothing but new objects is added. -/
theorem GrowsTo.unfolding? {old new : Store} (grows : old.GrowsTo new) :
    ExtendedBy old.unfolding? new.unfolding? := by
  intro handle tree unfolds
  rw [unfolding?_eq_some_iff]
  exact ⟨old.nodes.size,
    grows.expand? (grows.unfoldNode? (Nat.le_refl old.nodes.size)) unfolds⟩

/-- A direct call with one argument unfolds if the argument does. -/
theorem unfolding?_directCall_of_single {store : Store} {whole child : NodeId}
    {type : ValueType} {tag : Tag} {list : ListId} {named : Named NodeId}
    {name : String} {root : Expression}
    (call : store.node? whole = some (.directCall type tag list))
    (arguments : store.list? list = some named)
    (single : named.toList = [(name, child)])
    (unfolds : store.unfolding? (.node child) = some (.expression root)) :
    store.unfolding? (.node whole) =
      some (.expression (.directCall type tag [(name, root)])) := by
  obtain ⟨_, found, same⟩ := Option.map_eq_some_iff.mp unfolds
  cases same
  refine unfolding?_eq_some_iff.mpr ⟨store.nodes.size + 1, ?_⟩
  simp [expand?, unfoldNode?, call, Node.expand?, expandList?, arguments, single,
    mapEntries?, found]

end Store

end MaterialGraph
