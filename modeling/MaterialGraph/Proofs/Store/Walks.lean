import MaterialGraph.Proofs.Store.Assembly
import MaterialGraph.Store.Query
import Mathlib.Algebra.GroupWithZero.Nat

/-!
# Walks over a store see trees

Objects are written, dumped and measured on a walk from object to object.  What
the walk comes to is a function of the tree, and where there is no tree it
comes to nothing.  A dump with a limit of depth sees the outline, which every
object has.

Each walk follows the search for the tree: where the parts of an object give
what their trees give, so does the object.
-/

namespace MaterialGraph

open ByteStream

section Entries

variable {α β γ : Type} {change : α → Option β} {result : β → γ}

theorem mapM_option_map (children : List α) :
    (children.mapM fun child => (change child).map result) =
      (children.mapM change).map (List.map result) := by
  induction children with
  | nil => rfl
  | cons child rest induction =>
      simp only [List.mapM_cons, induction]
      cases change child <;> cases rest.mapM change <;> rfl

theorem mapEntries?_option_map (entries : List (String × α)) :
    mapEntries? (fun child => (change child).map result) entries =
      (mapEntries? change entries).map
        (List.map fun entry => (entry.1, result entry.2)) := by
  induction entries with
  | nil => rfl
  | cons entry rest induction =>
      obtain ⟨name, child⟩ := entry
      simp only [mapEntries?, induction]
      cases change child <;> cases mapEntries? change rest <;> rfl

/-- The children by themselves. -/
theorem mapM_map_snd (entries : List (String × α)) :
    (entries.map Prod.snd).mapM change =
      (mapEntries? change entries).map (List.map Prod.snd) := by
  induction entries with
  | nil => rfl
  | cons entry rest induction =>
      obtain ⟨name, child⟩ := entry
      simp only [List.map_cons, List.mapM_cons, mapEntries?, induction]
      cases change child <;> cases mapEntries? change rest <;> rfl

/-- The children with a use of their names. -/
theorem mapM_entries (result : String → β → γ)
    (entries : List (String × α)) :
    (entries.mapM fun entry => (change entry.2).map (result entry.1)) =
      (mapEntries? change entries).map
        (List.map fun entry => result entry.1 entry.2) := by
  induction entries with
  | nil => rfl
  | cons entry rest induction =>
      obtain ⟨name, child⟩ := entry
      simp only [List.mapM_cons, mapEntries?, induction]
      cases change child <;> cases mapEntries? change rest <;> rfl

/-- The children with a use of their positions. -/
theorem mapM_zipIdx (result : Nat → β → γ) (children : List α)
    (position : Nat) :
    ((children.zipIdx position).mapM fun entry =>
        (change entry.1).map (result entry.2)) =
      (children.mapM change).map fun found =>
        (found.zipIdx position).map fun entry => result entry.2 entry.1 := by
  induction children generalizing position with
  | nil => rfl
  | cons child rest induction =>
      simp only [List.zipIdx_cons, List.mapM_cons, induction]
      cases change child <;> cases rest.mapM change <;> rfl

theorem length_of_mapM {children : List α} {found : List β}
    (mapped : children.mapM change = some found) :
    found.length = children.length := by
  simpa using (congrArg List.length (mapM_eq_some_iff.mp mapped)).symm

end Entries

theorem length_of_mapEntries? {α β : Type} {change : α → Option β}
    {named : Named α} (consistent : named.Consistent)
    {changed : List (String × β)}
    (result : mapEntries? change named.toList = some changed) :
    changed.length = named.size := by
  have sameLength := congrArg List.length (names_mapEntries? result)
  rw [List.length_map, List.length_map, consistent.length_toList] at sameLength
  exact sameLength.symm

section Bytes

theorem Expression.encodeEntries_eq (arguments : Arguments) :
    encodeEntries arguments =
      Store.encodeNamed
        (arguments.map fun entry => (entry.1, entry.2.encode)) := by
  induction arguments with
  | nil => rfl
  | cons entry rest induction =>
      simp [encodeEntries, Store.encodeNamed, induction]

theorem Node.encode?_eq (arguments? : ListId → Option Arguments) (node : Node) :
    node.encode? (fun id => (arguments? id).map Arguments.encode) =
      (node.expand? arguments?).map Expression.encode := by
  cases node with
  | constant | call | parameter | temporary => rfl
  | directCall type tag list =>
      simp only [encode?, expand?]
      cases arguments? list <;> rfl

namespace Store

variable {store : Store} {node? : NodeId → Option Expression}

theorem encodeList?_eq (consistent : store.Consistent) (id : ListId) :
    store.encodeList? (fun id => (node? id).map Expression.encode) id =
      (store.expandList? node? id).map Arguments.encode := by
  rw [encodeList?, expandList?]
  cases there : store.list? id with
  | none => rfl
  | some list =>
      simp only [Option.bind_eq_bind, Option.bind_some, mapEntries?_option_map]
      cases result : mapEntries? node? list.toList with
      | none => rfl
      | some arguments =>
          have size := length_of_mapEntries? (consistent.lists there) result
          simp [Arguments.encode, Expression.encodeEntries_eq, size]

theorem encodeNode?_eq (consistent : store.Consistent) (length : Nat)
    (id : NodeId) :
    store.encodeNode? length id =
      (store.unfoldNode? length id).map Expression.encode := by
  induction length generalizing id with
  | zero => rfl
  | succ length induction =>
      rw [encodeNode?, unfoldNode?, funext induction,
        funext (encodeList?_eq consistent)]
      cases store.node? id with
      | none => rfl
      | some node => exact node.encode?_eq _

theorem encodeNote?_eq (id : NoteId) :
    store.encodeNote?
        (fun id => (store.expandList? node? id).map Arguments.encode) id =
      (store.expandNote? node? id).map AnnotationCall.encode := by
  rw [encodeNote?, expandNote?]
  cases store.note? id with
  | none => rfl
  | some note =>
      simp only [Option.bind_eq_bind, Option.bind_some]
      cases store.expandList? node? note.arguments <;> rfl

theorem encodeBlock?_eq (id : BlockId) :
    store.encodeBlock?
        (fun id => (store.expandNote? node? id).map AnnotationCall.encode) id =
      (store.expandBlock? node? id).map AnnotationBlock.encode := by
  rw [encodeBlock?, expandBlock?]
  cases store.block? id with
  | none => rfl
  | some notes =>
      simp only [Option.bind_eq_bind, Option.bind_some, mapM_option_map]
      cases result : notes.toList.mapM (store.expandNote? node?) with
      | none => rfl
      | some calls =>
          have size := length_of_mapM result
          simp [AnnotationBlock.encode, List.flatMap_def, size]

theorem encodeTable?_eq (consistent : store.Consistent) (id : TableId) :
    store.encodeTable?
        (fun id => (store.expandBlock? node? id).map AnnotationBlock.encode) id =
      (store.expandTable? node? id).map AnnotationTable.encode := by
  rw [encodeTable?, expandTable?]
  cases there : store.table? id with
  | none => rfl
  | some table =>
      simp only [Option.bind_eq_bind, Option.bind_some, mapEntries?_option_map]
      cases result : mapEntries? (store.expandBlock? node?) table.toList with
      | none => rfl
      | some blocks =>
          have size := length_of_mapEntries? (consistent.tables there) result
          simp [AnnotationTable.encode, encodeNamed, List.flatMap_map, size]

/-- The bytes of an object are those of its tree. -/
theorem encode?_eq (consistent : store.Consistent) (handle : Handle) :
    store.encode? handle = (store.unfolding? handle).map Tree.encode := by
  have nodes := funext (encodeNode?_eq consistent store.nodes.size)
  have lists : store.encodeList? _ = _ :=
    (congrArg _ nodes).trans (funext (encodeList?_eq consistent))
  have notes : store.encodeNote? _ = _ :=
    (congrArg _ lists).trans (funext encodeNote?_eq)
  have blocks : store.encodeBlock? _ = _ :=
    (congrArg _ notes).trans (funext encodeBlock?_eq)
  have tables : store.encodeTable? _ = _ :=
    (congrArg _ blocks).trans (funext (encodeTable?_eq consistent))
  cases handle <;>
    rw [unfolding?, expand?, Option.map_eq_map, Option.map_map]
  case node id => exact congrFun nodes id
  case list id => exact congrFun lists id
  case note id => exact congrFun notes id
  case block id => exact congrFun blocks id
  case table id => exact congrFun tables id

end Store

end Bytes

section Lines

variable {style : DumpStyle}

theorem Expression.entryLines_eq (level calls : Nat) (arguments : Arguments) :
    entryLines style level calls arguments =
      (arguments.map fun entry =>
        entry.2.lines style entry.1 level calls).flatten := by
  induction arguments with
  | nil => rfl
  | cons entry rest induction =>
      rw [entryLines, induction, List.map_cons, List.flatten_cons]

theorem AnnotationBlock.entryLines_eq (level position : Nat)
    (calls : AnnotationBlock) :
    entryLines style level position calls =
      ((calls.zipIdx position).map fun entry =>
        entry.1.lines style (toString entry.2) level).flatten := by
  induction calls generalizing position with
  | nil => rfl
  | cons call rest induction =>
      rw [entryLines, induction, List.zipIdx_cons, List.map_cons,
        List.flatten_cons]

namespace Node

variable {name : String} {level calls : Nat} (node : Node)

/-- Where a direct call is expanded, its lines are those of its tree. -/
theorem lines?_eq (within : style.cuts calls = false)
    (arguments? : ListId → Option Arguments) :
    node.lines? style name level calls
        (fun id => (arguments? id).map
          (Expression.entryLines style (level + 1) (calls + 1))) =
      (node.expand? arguments?).map
        (Expression.lines style name level calls) := by
  cases node with
  | constant | call | parameter | temporary =>
      simp only [expand?, Option.map_some, Expression.lines]
      rfl
  | directCall type tag list =>
      cases found : arguments? list with
      | none => simp [lines?, expand?, within, found]
      | some arguments =>
          simp only [lines?, expand?, within, found, Bool.false_eq_true,
            if_false, Option.map_some, Option.bind_eq_bind, Option.bind_some,
            Option.pure_def, Expression.lines]
          rfl

/-- Where it is not, they do not depend on its arguments. -/
theorem lines?_eq_of_cuts (beyond : style.cuts calls = true)
    (entryLines? : ListId → Option (List Line)) :
    node.lines? style name level calls entryLines? =
      (node.expand? fun _ => some []).map
        (Expression.lines style name level calls) := by
  cases node with
  | constant | call | parameter | temporary =>
      simp only [expand?, Option.map_some, Expression.lines]
      rfl
  | directCall type tag list =>
      simp only [lines?, expand?, beyond, if_true, Option.bind_eq_bind,
        Option.bind_some, Option.pure_def, Option.map_some, Expression.lines]
      rfl

end Node

namespace Store

variable {store : Store}

theorem entryLines?_eq (node? : NodeId → Option Expression) (level calls : Nat)
    (id : ListId) :
    store.entryLines? (fun name id =>
        (node? id).map (Expression.lines style name level calls)) id =
      (store.expandList? node? id).map
        (Expression.entryLines style level calls) := by
  rw [entryLines?, expandList?]
  cases store.list? id with
  | none => rfl
  | some list =>
      simp only [Option.bind_eq_bind, Option.bind_some]
      rw [mapM_entries fun name => Expression.lines style name level calls]
      cases mapEntries? node? list.toList with
      | none => rfl
      | some arguments => simp [Expression.entryLines_eq]

/-- The expressions that a dump sees. -/
def seenNode? (store : Store) (style : DumpStyle) :
    NodeId → Option Expression :=
  if style.depth = 0 then store.unfoldNode? store.nodes.size
  else store.outlineNode? style.depth

theorem nodeLines?_eq_unfoldNode? (unlimited : style.depth = 0) (length : Nat)
    (name : String) (level calls : Nat) (id : NodeId) :
    store.nodeLines? style length name level calls id =
      (store.unfoldNode? length id).map
        (Expression.lines style name level calls) := by
  induction length generalizing name level calls id with
  | zero => rfl
  | succ length induction =>
      have within : style.cuts calls = false := by
        simp [DumpStyle.cuts, unlimited]
      have inner : (fun name => store.nodeLines? style length name (level + 1)
          (calls + 1)) = fun name id => (store.unfoldNode? length id).map
            (Expression.lines style name (level + 1) (calls + 1)) :=
        funext fun name => funext (induction name (level + 1) (calls + 1))
      rw [nodeLines?, unfoldNode?, inner, funext (entryLines?_eq _ _ _)]
      cases store.node? id with
      | none => rfl
      | some node => exact node.lines?_eq within _

theorem nodeLines?_eq_outlineNode? (limited : style.depth ≠ 0)
    (name : String) (level : Nat) {calls rest : Nat}
    (left : calls + rest = style.depth) (id : NodeId) :
    store.nodeLines? style (rest + 1) name level calls id =
      (store.outlineNode? rest id).map
        (Expression.lines style name level calls) := by
  induction rest generalizing name level calls id with
  | zero =>
      have beyond : style.cuts calls = true := by
        have reached : style.depth ≤ calls := Nat.le_of_eq left.symm
        simp [DumpStyle.cuts, limited, reached]
      rw [nodeLines?, outlineNode?]
      cases store.node? id with
      | none => rfl
      | some node => exact node.lines?_eq_of_cuts beyond _
  | succ rest induction =>
      have within : style.cuts calls = false := by
        simp [DumpStyle.cuts, ← left]
      have inner : (fun name => store.nodeLines? style (rest + 1) name
          (level + 1) (calls + 1)) =
            fun name id => (store.outlineNode? rest id).map
              (Expression.lines style name (level + 1) (calls + 1)) :=
        funext fun name => funext (induction name (level + 1) (by omega))
      rw [nodeLines?, outlineNode?, inner, funext (entryLines?_eq _ _ _)]
      cases store.node? id with
      | none => rfl
      | some node => exact node.lines?_eq within _

theorem nodeLines?_eq (name : String) (level : Nat) (id : NodeId) :
    store.nodeLines? style (store.room style) name level 0 id =
      (store.seenNode? style id).map (Expression.lines style name level 0) := by
  unfold room seenNode?
  split
  · rename_i unlimited
    exact nodeLines?_eq_unfoldNode? unlimited _ name level 0 id
  · rename_i limited
    exact nodeLines?_eq_outlineNode? limited name level (Nat.zero_add _) id

theorem argumentLines?_eq (level : Nat) (id : ListId) :
    store.argumentLines? style level id =
      (store.expandList? (store.seenNode? style) id).map
        (Expression.entryLines style level 0) := by
  have inner : (fun name => store.nodeLines? style (store.room style) name
      level 0) = fun name id => (store.seenNode? style id).map
        (Expression.lines style name level 0) :=
    funext fun name => funext (nodeLines?_eq name level)
  rw [argumentLines?, inner, entryLines?_eq]

theorem listLines?_eq (name : String) (level : Nat) (id : ListId) :
    store.listLines? style name level id =
      (store.expandList? (store.seenNode? style) id).map
        (Arguments.lines style name level) := by
  rw [listLines?, argumentLines?_eq]
  cases store.expandList? (store.seenNode? style) id <;> rfl

theorem noteLines?_eq (name : String) (level : Nat) (id : NoteId) :
    store.noteLines? style name level id =
      (store.expandNote? (store.seenNode? style) id).map
        (AnnotationCall.lines style name level) := by
  rw [noteLines?, expandNote?]
  cases store.note? id with
  | none => rfl
  | some note =>
      simp only [Option.bind_eq_bind, Option.bind_some, argumentLines?_eq]
      cases store.expandList? (store.seenNode? style) note.arguments <;> rfl

theorem blockLines?_eq (name : String) (level : Nat) (id : BlockId) :
    store.blockLines? style name level id =
      (store.expandBlock? (store.seenNode? style) id).map
        (AnnotationBlock.lines style name level) := by
  rw [blockLines?, expandBlock?]
  cases store.block? id with
  | none => rfl
  | some notes =>
      simp only [Option.bind_eq_bind, Option.bind_some, noteLines?_eq]
      rw [mapM_zipIdx fun position =>
        AnnotationCall.lines style (toString position) (level + 1)]
      cases notes.toList.mapM (store.expandNote? (store.seenNode? style)) with
      | none => rfl
      | some calls => simp [AnnotationBlock.lines, AnnotationBlock.entryLines_eq]

theorem tableLines?_eq (name : String) (level : Nat) (id : TableId) :
    store.tableLines? style name level id =
      (store.expandTable? (store.seenNode? style) id).map
        (AnnotationTable.lines style name level) := by
  rw [tableLines?, expandTable?]
  cases store.table? id with
  | none => rfl
  | some table =>
      simp only [Option.bind_eq_bind, Option.bind_some, blockLines?_eq]
      rw [mapM_entries fun name =>
        AnnotationBlock.lines style name (level + 1)]
      cases mapEntries? (store.expandBlock? (store.seenNode? style))
        table.toList with
      | none => rfl
      | some blocks => simp [AnnotationTable.lines, List.flatMap_def]

/-- A dump shows the tree that it sees. -/
theorem lines?_eq (name : String) (handle : Handle) :
    store.lines? style name handle =
      (store.expand? (store.seenNode? style) handle).map
        (Tree.lines style name) := by
  cases handle <;> rw [expand?, Option.map_eq_map, Option.map_map]
  case node id => exact nodeLines?_eq name 0 id
  case list id => exact listLines?_eq name 0 id
  case note id => exact noteLines?_eq name 0 id
  case block id => exact blockLines?_eq name 0 id
  case table id => exact tableLines?_eq name 0 id

end Store

end Lines

section Footprint

theorem Footprint.total_eq_sum (amounts : List Nat) :
    total amounts = amounts.sum :=
  rfl

/-- The room for a name in an entry, and for the reference to the child. -/
theorem sum_footprint_names (names : List String) :
    2 * (names.map String.utf8ByteSize).sum + names.length * 24 +
        names.length * 24 + names.length * Footprint.slot =
      (names.map fun name => Footprint.name name + Footprint.slot).sum := by
  induction names with
  | nil => rfl
  | cons name names induction =>
      rw [List.map_cons, List.map_cons, List.sum_cons, List.sum_cons,
        List.length_cons, ← induction]
      simp only [Footprint.name, Footprint.slot]
      omega

theorem Named.Consistent.overhead_tight {α : Type} {named : Named α}
    (consistent : named.Consistent) (handle : Handle) :
    Allocation.tight.overhead handle named =
      (named.names.toList.map fun name =>
        Footprint.name name + Footprint.slot).sum := by
  rw [← sum_footprint_names, Array.length_toList, consistent.size_eq]
  rfl

theorem Expression.entriesFootprint_eq (arguments : Arguments) :
    entriesFootprint arguments =
      ((arguments.map Prod.fst).map fun name =>
          Footprint.name name + Footprint.slot).sum +
        (arguments.map fun entry => entry.2.footprint).sum := by
  induction arguments with
  | nil => rfl
  | cons entry rest induction =>
      simp only [entriesFootprint, induction, List.map_cons, List.sum_cons]
      omega

theorem AnnotationBlock.entriesFootprint_eq (calls : AnnotationBlock) :
    entriesFootprint calls =
      calls.length * Footprint.slot +
        (calls.map AnnotationCall.footprint).sum := by
  induction calls with
  | nil => rfl
  | cons call rest induction =>
      simp only [entriesFootprint, induction, List.map_cons, List.sum_cons,
        List.length_cons, Nat.succ_mul]
      omega

theorem AnnotationTable.entriesFootprint_eq (entries : AnnotationTable) :
    entriesFootprint entries =
      ((entries.map Prod.fst).map fun name =>
          Footprint.name name + Footprint.slot).sum +
        (entries.map fun entry => AnnotationBlock.footprint entry.2).sum := by
  induction entries with
  | nil => rfl
  | cons entry rest induction =>
      simp only [entriesFootprint, induction, List.map_cons, List.sum_cons]
      omega

theorem Node.memory?_eq (arguments? : ListId → Option Arguments)
    (handle : Handle) (node : Node) :
    node.memory? .tight (fun id => (arguments? id).map Arguments.footprint)
        handle =
      (node.expand? arguments?).map Expression.footprint := by
  cases node with
  | constant | call | parameter | temporary => rfl
  | directCall type tag list =>
      simp only [memory?, expand?]
      cases arguments? list <;> rfl

namespace Store

variable {store : Store} {node? : NodeId → Option Expression}

theorem memoryOfList?_eq (consistent : store.Consistent) (id : ListId) :
    store.memoryOfList? .tight
        (fun id => (node? id).map Expression.footprint) id =
      (store.expandList? node? id).map Arguments.footprint := by
  rw [memoryOfList?, expandList?]
  cases there : store.list? id with
  | none => rfl
  | some list =>
      have inStep := consistent.lists there
      simp only [Option.bind_eq_bind, Option.bind_some, mapM_option_map]
      rw [← inStep.children_toList, mapM_map_snd]
      cases entries : mapEntries? node? list.toList with
      | none => rfl
      | some arguments =>
          have names := names_mapEntries? entries
          rw [inStep.names_toList] at names
          simp only [Option.map_some, Option.bind_some, Option.pure_def,
            inStep.overhead_tight, names, Arguments.footprint,
            Expression.entriesFootprint_eq, List.map_map, Function.comp_def]
          exact congrArg some (Nat.add_assoc _ _ _)

theorem memoryOfNode?_eq (consistent : store.Consistent) (length : Nat)
    (id : NodeId) :
    store.memoryOfNode? .tight length id =
      (store.unfoldNode? length id).map Expression.footprint := by
  induction length generalizing id with
  | zero => rfl
  | succ length induction =>
      rw [memoryOfNode?, unfoldNode?, funext induction,
        funext (memoryOfList?_eq consistent)]
      cases store.node? id with
      | none => rfl
      | some node => exact node.memory?_eq _ (.node id)

theorem memoryOfNote?_eq (id : NoteId) :
    store.memoryOfNote? .tight
        (fun id => (store.expandList? node? id).map Arguments.footprint) id =
      (store.expandNote? node? id).map AnnotationCall.footprint := by
  rw [memoryOfNote?, expandNote?]
  cases store.note? id with
  | none => rfl
  | some note =>
      simp only [Option.bind_eq_bind, Option.bind_some]
      cases store.expandList? node? note.arguments <;> rfl

theorem memoryOfBlock?_eq (id : BlockId) :
    store.memoryOfBlock? .tight
        (fun id => (store.expandNote? node? id).map AnnotationCall.footprint)
        id =
      (store.expandBlock? node? id).map AnnotationBlock.footprint := by
  rw [memoryOfBlock?, expandBlock?]
  cases store.block? id with
  | none => rfl
  | some notes =>
      simp only [Option.bind_eq_bind, Option.bind_some, mapM_option_map]
      cases result : notes.toList.mapM (store.expandNote? node?) with
      | none => rfl
      | some calls =>
          have size : calls.length = notes.size := length_of_mapM result
          simp only [Option.map_some, Option.bind_some, Option.pure_def,
            AnnotationBlock.footprint, AnnotationBlock.entriesFootprint_eq,
            size]
          exact congrArg some (Nat.add_assoc _ _ _)

theorem memoryOfTable?_eq (consistent : store.Consistent) (id : TableId) :
    store.memoryOfTable? .tight
        (fun id => (store.expandBlock? node? id).map AnnotationBlock.footprint)
        id =
      (store.expandTable? node? id).map AnnotationTable.footprint := by
  rw [memoryOfTable?, expandTable?]
  cases there : store.table? id with
  | none => rfl
  | some table =>
      have inStep := consistent.tables there
      simp only [Option.bind_eq_bind, Option.bind_some, mapM_option_map]
      rw [← inStep.children_toList, mapM_map_snd]
      cases entries : mapEntries? (store.expandBlock? node?) table.toList with
      | none => rfl
      | some blocks =>
          have names := names_mapEntries? entries
          rw [inStep.names_toList] at names
          simp only [Option.map_some, Option.bind_some, Option.pure_def,
            inStep.overhead_tight, names, AnnotationTable.footprint,
            AnnotationTable.entriesFootprint_eq, List.map_map,
            Function.comp_def]
          exact congrArg some (Nat.add_assoc _ _ _)

/-- The memory of an object, where nothing is reserved that is not needed, is
the footprint of its tree. -/
theorem memory?_tight_eq (consistent : store.Consistent) (handle : Handle) :
    store.memory? .tight handle =
      (store.unfolding? handle).map Tree.footprint := by
  have nodes := funext (memoryOfNode?_eq consistent store.nodes.size)
  have lists : store.memoryOfList? .tight _ = _ :=
    (congrArg _ nodes).trans (funext (memoryOfList?_eq consistent))
  have notes : store.memoryOfNote? .tight _ = _ :=
    (congrArg _ lists).trans (funext memoryOfNote?_eq)
  have blocks : store.memoryOfBlock? .tight _ = _ :=
    (congrArg _ notes).trans (funext memoryOfBlock?_eq)
  have tables : store.memoryOfTable? .tight _ = _ :=
    (congrArg _ blocks).trans (funext (memoryOfTable?_eq consistent))
  cases handle <;>
    rw [unfolding?, expand?, Option.map_eq_map, Option.map_map]
  case node id => exact congrFun nodes id
  case list id => exact congrFun lists id
  case note id => exact congrFun notes id
  case block id => exact congrFun blocks id
  case table id => exact congrFun tables id

end Store

end Footprint

end MaterialGraph
