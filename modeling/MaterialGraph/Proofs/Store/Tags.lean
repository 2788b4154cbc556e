import MaterialGraph.Proofs.Store.Copying
import MaterialGraph.Proofs.Store.Independence
import MaterialGraph.Proofs.Store.Wire

/-!
# Tags and names in every store that can be reached

Each of the ways in which a call gets its tag keeps the null tag out: it is
refused when a call is made or changed, no word that is read denotes it, and a
clone has the tags of its original.  The names in a container are distinct
because only additions bring new ones.  These are the conditions of a reader
that do not depend on what types, values and names a program uses, so that an
object without cycles can be read back if only those suit the reader.
-/

namespace MaterialGraph

/-- The tag of a call is not null. -/
def Object.IsTagged : Object → Prop
  | node held => ∀ tag, held.tag? = some tag → tag ≠ Tag.null
  | _ => True

/-- Placing a tree is the only operation that does not look at the tags it is
given, so they must not be null from the start.  Every other operation may have
any arguments. -/
def Operation.IsTagged : Operation → Prop
  | place tree => tree.IsTagged
  | _ => True

theorem Tag.ne_null_of_isNull {tag : Tag} (notNull : tag.isNull = false) :
    tag ≠ Tag.null := by
  rintro rfl
  cases notNull

theorem Node.Edit.isTagged {node edited : Node} (edit : node.Edit edited) :
    (Object.node edited).IsTagged := by
  intro tag isTag
  cases edit with
  | value | parameter | temporary => cases isTag
  | call notNull =>
      cases isTag
      exact Tag.ne_null_of_isNull notNull
  | directCall notNull =>
      cases isTag
      exact Tag.ne_null_of_isNull notNull

/-- No part of an object that is read is the null tag. -/
theorem isTagged_of_decode {form : Form} {bytes : List UInt8} {tree : Tree}
    {left : Reader} (read : form.decode (.ofList bytes) = .ok tree left) :
    tree.IsTagged := by
  obtain ⟨-, -, denotes⟩ :=
    ((accepts_decode form).ofList bytes tree left.position).mp ⟨left, read, rfl⟩
  exact denotes.isStorable.tagged

/-- The part passes the checks that the operations on a store make. -/
structure Part.IsChecked (part : Part) : Prop where
  tagged : part.IsTagged
  distinct : part.IsDistinct

namespace Store

section Trees

variable {store : Store} {length : Nat}

theorem exists_of_mem_mapEntries? {α β : Type} {change : α → Option β}
    {entries : List (String × α)} {changed : List (String × β)}
    (result : mapEntries? change entries = some changed)
    {entry : String × β} (member : entry ∈ changed) :
    ∃ child, change child = some entry.2 := by
  induction entries generalizing changed with
  | nil =>
      cases result
      cases member
  | cons first rest induction =>
      obtain ⟨found, foundFirst, others, foundOthers, rfl⟩ :=
        mapEntries?_cons_eq_some_iff.mp result
      rcases List.mem_cons.mp member with rfl | later
      · exact ⟨first.2, foundFirst⟩
      · exact induction foundOthers later

theorem isChecked_entryParts (consistent : store.Consistent) {calls : Nat}
    (roots : ∀ {id : NodeId} {expression : Expression},
      store.unfoldNode? length id = some expression →
        ∀ part ∈ expression.parts calls, part.IsChecked)
    {id : ListId} {arguments : Arguments}
    (unfolds : store.expandList? (store.unfoldNode? length) id =
      some arguments) :
    (Part.names (arguments.map Prod.fst)).IsChecked ∧
      ∀ part ∈ Expression.entryParts calls arguments, part.IsChecked := by
  obtain ⟨named, found, entries⟩ := expandList?_eq_some_iff.mp unfolds
  constructor
  · refine ⟨trivial, ?_⟩
    rw [← names_mapEntries? entries]
    exact (consistent.lists found).nodup
  · intro part member
    rw [Expression.entryParts_eq_flatMap] at member
    obtain ⟨entry, inside, ofEntry⟩ := List.mem_flatMap.mp member
    rcases List.mem_cons.mp ofEntry with rfl | ofChild
    · exact ⟨trivial, trivial⟩
    · obtain ⟨child, unfoldsChild⟩ := exists_of_mem_mapEntries? entries inside
      exact roots unfoldsChild part ofChild

theorem isChecked_parts (consistent : store.Consistent)
    (tagged : store.Forall Object.IsTagged) {id : NodeId}
    {expression : Expression}
    (unfolds : store.unfoldNode? length id = some expression) (calls : Nat) :
    ∀ part ∈ expression.parts calls, part.IsChecked := by
  induction length generalizing id expression calls with
  | zero => cases unfolds
  | succ length induction =>
      obtain ⟨node, found, expanded⟩ :=
        unfoldNode?_succ_eq_some_iff.mp unfolds
      have nodeTagged := tagged (object?_node_eq_some_iff.mpr found)
      cases node with
      | constant =>
          cases expanded
          simp only [Expression.parts, List.forall_mem_cons]
          exact ⟨⟨trivial, trivial⟩, ⟨trivial, trivial⟩, ⟨trivial, trivial⟩,
            List.forall_mem_nil _⟩
      | parameter | temporary =>
          cases expanded
          simp only [Expression.parts, List.forall_mem_cons]
          exact ⟨⟨trivial, trivial⟩, ⟨trivial, trivial⟩, List.forall_mem_nil _⟩
      | call type tag =>
          cases expanded
          have notNull := nodeTagged tag rfl
          simp only [Expression.parts, List.forall_mem_cons]
          exact ⟨⟨trivial, trivial⟩, ⟨trivial, trivial⟩, ⟨notNull, trivial⟩,
            List.forall_mem_nil _⟩
      | directCall type tag list =>
          obtain ⟨arguments, entries, rfl⟩ :=
            Node.expand?_directCall_eq_some_iff.mp expanded
          have notNull := nodeTagged tag rfl
          obtain ⟨names, inside⟩ := isChecked_entryParts consistent
            (fun unfolds => induction unfolds (calls + 1)) entries
          simp only [Expression.parts, List.forall_mem_cons]
          exact ⟨⟨trivial, trivial⟩, ⟨trivial, trivial⟩, ⟨notNull, trivial⟩,
            names, inside⟩

theorem isChecked_arguments (consistent : store.Consistent)
    (tagged : store.Forall Object.IsTagged) {id : ListId}
    {arguments : Arguments}
    (unfolds : store.expandList? (store.unfoldNode? length) id =
      some arguments) :
    ∀ part ∈ Arguments.parts arguments, part.IsChecked := by
  obtain ⟨names, inside⟩ := isChecked_entryParts consistent
    (fun unfolds => isChecked_parts consistent tagged unfolds 0) unfolds
  exact List.forall_mem_cons.mpr ⟨names, inside⟩

theorem isChecked_call (consistent : store.Consistent)
    (tagged : store.Forall Object.IsTagged) {id : NoteId}
    {call : AnnotationCall}
    (unfolds : store.expandNote? (store.unfoldNode? length) id = some call) :
    ∀ part ∈ call.parts, part.IsChecked := by
  obtain ⟨note, -, arguments, entries, rfl⟩ :=
    expandNote?_eq_some_iff.mp unfolds
  exact List.forall_mem_cons.mpr
    ⟨⟨trivial, trivial⟩, isChecked_arguments consistent tagged entries⟩

theorem isChecked_block (consistent : store.Consistent)
    (tagged : store.Forall Object.IsTagged) {id : BlockId}
    {calls : AnnotationBlock}
    (unfolds : store.expandBlock? (store.unfoldNode? length) id = some calls) :
    ∀ part ∈ AnnotationBlock.parts calls, part.IsChecked := by
  obtain ⟨notes, -, expanded⟩ := expandBlock?_eq_some_iff.mp unfolds
  refine List.forall_mem_cons.mpr ⟨⟨trivial, trivial⟩, ?_⟩
  intro part member
  obtain ⟨call, inside, ofCall⟩ := List.mem_flatMap.mp member
  have result : some call ∈
      notes.toList.map (store.expandNote? (store.unfoldNode? length)) := by
    rw [mapM_eq_some_iff.mp expanded]
    exact List.mem_map_of_mem inside
  obtain ⟨note, -, unfoldsNote⟩ := List.mem_map.mp result
  exact isChecked_call consistent tagged unfoldsNote part ofCall

theorem isChecked_table (consistent : store.Consistent)
    (tagged : store.Forall Object.IsTagged) {id : TableId}
    {table : AnnotationTable}
    (unfolds : store.expandTable? (store.unfoldNode? length) id = some table) :
    ∀ part ∈ AnnotationTable.parts table, part.IsChecked := by
  obtain ⟨named, found, blocks⟩ := expandTable?_eq_some_iff.mp unfolds
  have distinct : (table.map Prod.fst).Nodup := by
    rw [← names_mapEntries? blocks]
    exact (consistent.tables found).nodup
  refine List.forall_mem_cons.mpr ⟨⟨trivial, distinct⟩, ?_⟩
  intro part member
  obtain ⟨entry, inside, ofEntry⟩ := List.mem_flatMap.mp member
  rcases List.mem_cons.mp ofEntry with rfl | ofBlock
  · exact ⟨trivial, trivial⟩
  · obtain ⟨block, unfoldsBlock⟩ := exists_of_mem_mapEntries? blocks inside
    exact isChecked_block consistent tagged unfoldsBlock part ofBlock

/-- The tree of an object has the tags of the calls and the names of the
containers below the object. -/
theorem isChecked_unfolding? (consistent : store.Consistent)
    (tagged : store.Forall Object.IsTagged) {handle : Handle} {tree : Tree}
    (unfolds : store.unfolding? handle = some tree) :
    ∀ part ∈ tree.parts, part.IsChecked := by
  cases handle with
  | node id =>
      obtain ⟨root, found, rfl⟩ := Option.map_eq_some_iff.mp unfolds
      exact isChecked_parts consistent tagged found 0
  | list id =>
      obtain ⟨entries, found, rfl⟩ := Option.map_eq_some_iff.mp unfolds
      exact isChecked_arguments consistent tagged found
  | note id =>
      obtain ⟨call, found, rfl⟩ := Option.map_eq_some_iff.mp unfolds
      exact isChecked_call consistent tagged found
  | block id =>
      obtain ⟨calls, found, rfl⟩ := Option.map_eq_some_iff.mp unfolds
      exact isChecked_block consistent tagged found
  | table id =>
      obtain ⟨table, found, rfl⟩ := Option.map_eq_some_iff.mp unfolds
      exact isChecked_table consistent tagged found

end Trees

section Steps

variable {store changed : Store} {handle : Handle}

theorem suits_isTagged : Suits Object.IsTagged (· ≠ Tag.null) where
  node _ notNull := notNull
  list _ := trivial
  note _ := trivial
  block _ := trivial
  table _ := trivial

theorem forall_isTagged_create {tree : Tree}
    (result : store.create tree.place = .ok (handle, changed))
    (treeTagged : tree.IsTagged) (tagged : store.Forall Object.IsTagged) :
    changed.Forall Object.IsTagged := by
  have placed : (tree.place.run store).2.Forall Object.IsTagged :=
    forall_place suits_isTagged (fun _ member => treeTagged _ member) tagged
  rwa [Except.ok.inj result] at placed

theorem withstands_isTagged : Withstands Object.IsTagged where
  node edit _ := edit.isTagged
  list _ _ := trivial
  note _ := trivial
  block _ := trivial
  table _ _ := trivial

theorem forall_isTagged_decode {form : Form} {bytes : List UInt8}
    (result : (decodeTree form bytes >>= fun tree => store.create tree.place) =
      .ok (handle, changed)) (tagged : store.Forall Object.IsTagged) :
    changed.Forall Object.IsTagged := by
  obtain ⟨tree, read, placed⟩ := bind_eq_ok_iff.mp result
  cases decoded : form.decode (.ofList bytes) with
  | ok tree' left =>
      simp only [decodeTree, decoded] at read
      cases read
      exact forall_isTagged_create placed (isTagged_of_decode decoded) tagged
  | error reason left =>
      simp only [decodeTree, decoded] at read
      cases read

/-- Nothing that an operation makes or changes has the null tag. -/
theorem forall_isTagged_apply {operation : Operation}
    (result : store.apply operation = .ok (handle, changed))
    (allowed : operation.IsTagged) (closed : store.Closed)
    (built : store.Forall Object.IsBuilt)
    (tagged : store.Forall Object.IsTagged) :
    changed.Forall Object.IsTagged := by
  cases operation with
  | newConstant | newParameter | newTemporary =>
      cases result
      exact (adds_newNode _ _).updates.forall tagged nofun
  | newCall type tag =>
      simp only [apply, bind_eq_ok_iff, requireTag_eq_ok_iff] at result
      obtain ⟨_, notNull, same⟩ := result
      cases same
      refine (adds_newNode _ _).updates.forall tagged ?_
      rintro _ ⟨⟩
      exact Tag.ne_null_of_isNull notNull
  | newDirectCall type tag arguments =>
      simp only [apply, bind_eq_ok_iff, requireTag_eq_ok_iff] at result
      obtain ⟨_, -, _, notNull, same⟩ := result
      cases same
      refine (adds_newNode _ _).updates.forall tagged ?_
      rintro _ ⟨⟩
      exact Tag.ne_null_of_isNull notNull
  | newList =>
      cases result
      exact (adds_newList _ _).updates.forall tagged trivial
  | newNote name arguments =>
      simp only [apply, bind_eq_ok_iff] at result
      obtain ⟨_, -, same⟩ := result
      cases same
      exact (adds_newNote _ _).updates.forall tagged trivial
  | newBlock =>
      cases result
      exact (adds_newBlock _ _).updates.forall tagged trivial
  | newTable =>
      cases result
      exact (adds_newTable _ _).updates.forall tagged trivial
  | place tree => exact forall_isTagged_create result allowed tagged
  | clone source =>
      have cloned : store.clone? source = some (handle, changed) := by
        cases source with
        | node | list => exact require_eq_ok_iff.mp result
        | note | block | table => cases result
      obtain ⟨tree, unfolds, placed⟩ :=
        exists_place_of_clone? closed built cloned
      have checked :=
        isChecked_unfolding? (consistent_of_isBuilt built) tagged unfolds
      exact forall_isTagged_create (congrArg Except.ok placed)
        (fun part member => (checked part member).tagged) tagged
  | decode form bytes => exact forall_isTagged_decode result tagged
  | reload source =>
      obtain ⟨tree, -, read⟩ := bind_eq_ok_iff.mp result
      exact forall_isTagged_decode read tagged
  | setValue | setCall | setDefinition | setIndex | setName | set | add =>
      cases Change.ofApply result with
      | creation noTarget => cases noTarget
      | mutation _ mutation => exact mutation.forall withstands_isTagged tagged

end Steps

/-- No call has the null tag after any operations that are not given a tree with
one. -/
theorem forall_isTagged_run {operations : List Operation}
    (allowed : ∀ operation ∈ operations, operation.IsTagged) :
    (run {} operations).Forall Object.IsTagged := by
  -- a clone has the tags of a tree, for which the store is closed and built
  let property (store : Store) : Prop :=
    store.Closed ∧ store.Forall Object.IsBuilt ∧ store.Forall Object.IsTagged
  have holds : property (run {} operations) := by
    apply run_preserves_of_apply
    · rintro _ _ _ _ ⟨closed, built, tagged⟩ allowed result
      have change := Change.ofApply result
      exact ⟨change.closed closed, change.forall_isBuilt closed built,
        forall_isTagged_apply result allowed closed built tagged⟩
    · exact ⟨closed_empty, forall_empty _, forall_empty _⟩
    · exact eachStep_of_forall (fun operation member _ =>
        allowed operation member) {}
  exact holds.2.2

/-- In every store that can be reached, no call has the null tag and the names in
each container are distinct.  An object without cycles can be read back if its
types and values are basic, it is not nested too deeply, and its lengths fit 64
bits. -/
theorem run_tagged_and_readable {operations : List Operation}
    (allowed : ∀ operation ∈ operations, operation.IsTagged) :
    (∀ id node tag, (run {} operations).node? id = some node →
      node.tag? = some tag → tag ≠ Tag.null) ∧
    (∀ id list, (run {} operations).list? id = some list →
      list.names.toList.Nodup) ∧
    (∀ id table, (run {} operations).table? id = some table →
      table.names.toList.Nodup) ∧
    ∀ handle, (run {} operations).Has handle →
      (run {} operations).AcyclicFrom handle →
        ∃ tree, (run {} operations).unfolding? handle = some tree ∧
          tree.IsTagged ∧ tree.IsDistinct ∧
          (tree.IsBasic → tree.IsNested → tree.IsSized →
            ∃ bytes left copy changed,
              (run {} operations).encode handle = .ok bytes ∧
              handle.form.decode (.ofList bytes) = .ok tree left ∧
              left.position = bytes.length ∧
              (run {} operations).apply (.decode handle.form bytes) =
                .ok (copy, changed) ∧
              changed.unfolding? copy = some tree) := by
  have consistent := consistent_run operations
  have tagged := forall_isTagged_run allowed
  refine ⟨?_, ?_, ?_, ?_⟩
  · intro id node tag found
    exact tagged (object?_node_eq_some_iff.mpr found) tag
  · intro id list found
    have listConsistent := consistent.lists found
    exact listConsistent.names_toList ▸ listConsistent.nodup
  · intro id table found
    have tableConsistent := consistent.tables found
    exact tableConsistent.names_toList ▸ tableConsistent.nodup
  · intro handle has acyclic
    obtain ⟨tree, unfolds⟩ :=
      (exists_unfolding?_iff consistent (closed_run operations)).mpr
        ⟨has, acyclic⟩
    have checked := isChecked_unfolding? consistent tagged unfolds
    have treeTagged : tree.IsTagged := fun part member =>
      (checked part member).tagged
    have distinct : tree.IsDistinct := fun part member =>
      (checked part member).distinct
    refine ⟨tree, unfolds, treeTagged, distinct, ?_⟩
    intro basic nested sized
    have read := (accepts_decode tree.form).ofList_append
      ⟨rfl, denotes_encode ⟨basic, treeTagged, distinct, nested, sized⟩⟩ []
    rw [List.append_nil] at read
    rw [← form_of_unfolding?_eq_some unfolds]
    exact ⟨tree.encode, _, _, _, encode_eq_ok consistent unfolds, read,
      by simp, apply_decode read, tree.unfolding?_place _ distinct⟩

/-- The null tag is refused when it is given and when it is read.  What was read
without it, and what was there before, is cloned. -/
def guardedCalls : List Operation :=
  [.newCall (.basic .bsdf) Tag.null, .decode .expression [1, 5, 0],
    .decode .expression [1, 5, 7], .clone (layeredMaterial.place.run {}).1]

theorem run_tagged_and_readable_guardedCalls :
    ∃ handle bytes left copy changed,
      (∀ id node tag,
        (run {} (.place layeredMaterial :: guardedCalls)).node? id = some node →
          node.tag? = some tag → tag ≠ Tag.null) ∧
      (run {} (.place layeredMaterial :: guardedCalls)).encode handle =
        .ok bytes ∧
      Form.expression.decode (.ofList bytes) = .ok layeredMaterial left ∧
      left.position = bytes.length ∧
      (run {} (.place layeredMaterial :: guardedCalls)).apply
        (.decode .expression bytes) = .ok (copy, changed) ∧
      changed.unfolding? copy = some layeredMaterial := by
  have allowed : ∀ operation ∈ Operation.place layeredMaterial :: guardedCalls,
      operation.IsTagged := by
    simp only [guardedCalls, List.forall_mem_cons]
    exact ⟨isStorable_layeredMaterial.tagged, trivial, trivial, trivial,
      trivial, List.forall_mem_nil _⟩
  have placed : (run {} [.place layeredMaterial]).unfolding?
      (layeredMaterial.place.run {}).1 = some layeredMaterial :=
    layeredMaterial.unfolding?_place {} isStorable_layeredMaterial.distinct
  have spare : ∀ operation ∈ guardedCalls, operation.Spares
      ((run {} [.place layeredMaterial]).Reaches
        (layeredMaterial.place.run {}).1) := by
    have creates : ∀ operation ∈ guardedCalls, operation.target? = none := by
      simp [guardedCalls, Operation.target?]
    intro operation member target isTarget
    rw [creates operation member] at isTarget
    cases isTarget
  have unfolds := unfolding?_run (consistent_run _) (closed_run _) placed spare
  rw [← run_cons] at unfolds
  have consistent := consistent_run (.place layeredMaterial :: guardedCalls)
  obtain ⟨tags, -, -, readable⟩ := run_tagged_and_readable allowed
  obtain ⟨tree, unfolds', -, -, reads⟩ := readable _
    (has_of_unfolding?_eq_some consistent unfolds)
    (acyclicFrom_of_unfolding?_eq_some consistent unfolds)
  cases unfolds.symm.trans unfolds'
  obtain ⟨bytes, left, copy, changed, encoded⟩ :=
    reads isStorable_layeredMaterial.basic isStorable_layeredMaterial.nested
      isStorable_layeredMaterial.sized
  exact ⟨_, bytes, left, copy, changed, tags, encoded⟩

end Store

end MaterialGraph
