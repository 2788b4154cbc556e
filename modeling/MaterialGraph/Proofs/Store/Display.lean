import MaterialGraph.Proofs.Expression.Rows
import MaterialGraph.Proofs.Store.Cycles
import MaterialGraph.Proofs.Store.Sight
import Mathlib.Data.List.Forall2

/-!
# Dumps with a limit of depth

A dump with a limit ends, also for objects that hold themselves: what stands at
the end of a way in the dump is what is seen of the object at the end of the
same way in the store.  So objects that look the same down to the limit have
the same dump, in whatever stores they are.
-/

namespace MaterialGraph

namespace Store

/-- A layout shows at the end of every way what is seen there. -/
def Displays (store : Store) (style : DumpStyle) (visit : Visit)
    (layout : Layout) : Prop :=
  ∀ way, (layout.at? way).map Layout.frame =
    (store.sightAt? style visit way).map (Sight.frame style.showTypes)

variable {store : Store} {style : DumpStyle} {visit : Visit}

namespace Displays

variable {layout : Layout} {sight : Sight}

theorem of_below (seen : store.sight? style visit = some sight)
    (frame : layout.frame = sight.frame style.showTypes)
    (below : ∀ (position : Nat) (rest : List Nat),
      (layout.parts[position]?.bind (Layout.at? · rest)).map Layout.frame =
        ((store.below visit)[position]?.bind
          (store.sightAt? style · rest)).map (Sight.frame style.showTypes)) :
    store.Displays style visit layout := by
  intro way
  cases way with
  | nil => simp only [Layout.at?_nil, sightAt?_nil, seen, Option.map_some, frame]
  | cons position rest =>
      rw [Layout.at?_cons, sightAt?_cons]
      exact below position rest

/-- An object is shown if its frame and its parts are. -/
theorem of_parts (seen : store.sight? style visit = some sight)
    (frame : layout.frame = sight.frame style.showTypes)
    (parts : List.Forall₂ (store.Displays style) (store.below visit)
      layout.parts) : store.Displays style visit layout := by
  refine of_below seen frame fun position rest => ?_
  by_cases inside : position < (store.below visit).length
  · have inside' : position < layout.parts.length := parts.length_eq ▸ inside
    rw [List.getElem?_eq_getElem inside, List.getElem?_eq_getElem inside']
    exact parts.get inside inside' rest
  · have outside : layout.parts.length ≤ position :=
      parts.length_eq ▸ Nat.le_of_not_lt inside
    rw [List.getElem?_eq_none (Nat.le_of_not_lt inside),
      List.getElem?_eq_none outside]
    rfl

/-- A direct call at the limit is shown without its arguments. -/
theorem of_cut (seen : store.sight? style visit = some sight)
    (frame : layout.frame = sight.frame style.showTypes)
    (alone : layout.parts = []) (isCall : store.isDirectCall visit.handle)
    (atLimit : visit.calls = style.depth) :
    store.Displays style visit layout := by
  refine of_below seen frame fun position rest => ?_
  rw [alone]
  cases taken : (store.below visit)[position]? with
  | none => rfl
  | some child =>
      have counted := calls_of_getElem?_below taken
      rw [if_pos isCall, atLimit] at counted
      have deep : style.depth < child.calls := by omega
      rw [Option.bind_some, sightAt?_eq_none deep]
      rfl

/-- The layout of a container with brackets around its parts. -/
theorem of_bracketed {name : String} {look : Look} {parts : List Layout}
    (seen : store.sight? style visit =
      some ⟨name, look, some ((store.namedParts visit.handle).map Prod.fst)⟩)
    (each : List.Forall₂ (store.Displays style) (store.below visit) parts) :
    store.Displays style visit
      (.bracketed (look.title style.showTypes name) look.brackets.1
        look.brackets.2 look.empty parts) := by
  refine of_parts seen ?_ ((Layout.parts_bracketed ..).symm ▸ each)
  have sameLength := each.length_eq
  rw [below, List.length_map, ← List.length_map Prod.fst] at sameLength
  revert sameLength
  generalize (store.namedParts visit.handle).map Prod.fst = names
  intro sameLength
  cases parts with
  | nil =>
      cases List.length_eq_zero_iff.mp sameLength
      rfl
  | cons part rest =>
      cases names with
      | nil => cases sameLength
      | cons first others =>
          simp only [List.length_cons] at sameLength
          simp [Layout.bracketed, Layout.frame, Sight.frame, sameLength]

end Displays

section Expressions

variable {node? : NodeId → Option Expression} {calls : Nat}

theorem forall₂_of_mapEntries? {α β : Type} {change : α → Option β}
    {related : String × α → String × β → Prop}
    (each : ∀ {child found}, change child = some found → ∀ name,
      related (name, child) (name, found))
    {children : List (String × α)} {changed : List (String × β)}
    (entries : mapEntries? change children = some changed) :
    List.Forall₂ related children changed := by
  induction children generalizing changed with
  | nil =>
      cases entries
      exact .nil
  | cons entry rest induction =>
      obtain ⟨child, found, others, foundOthers, rfl⟩ :=
        mapEntries?_cons_eq_some_iff.mp entries
      exact .cons (each found entry.1) (induction foundOthers)

theorem forall₂_displays_entryLayouts
    (each : ∀ {id expression}, node? id = some expression → ∀ name,
      store.Displays style ⟨name, calls, .node id⟩
        (expression.layout style name calls))
    {children : List (String × NodeId)} {arguments : Arguments}
    (entries : mapEntries? node? children = some arguments) :
    List.Forall₂ (store.Displays style)
      (children.map fun entry => ⟨entry.1, calls, .node entry.2⟩)
      (Expression.entryLayouts style calls arguments) := by
  rw [Expression.entryLayouts_eq_map, List.forall₂_map_left_iff,
    List.forall₂_map_right_iff]
  exact forall₂_of_mapEntries? each entries

theorem layout_leaf {node : Node} {expression : Expression}
    (alone : node.expand? (fun _ => none) = some expression) (name : String) :
    expression.layout style name calls =
      ⟨((Object.node node).look style).title style.showTypes name, [], ""⟩ := by
  cases node with
  | constant | call =>
      cases alone
      rfl
  | parameter | temporary =>
      cases alone
      rw [Expression.layout, String.append_assoc]
      rfl
  | directCall => cases alone

/-- An expression that is not a direct call is one line. -/
theorem displays_leaf {id : NodeId} {node : Node} {expression : Expression}
    (found : store.node? id = some node)
    (alone : node.expand? (fun _ => none) = some expression)
    (inLimit : calls ≤ style.depth) (name : String) :
    store.Displays style ⟨name, calls, .node id⟩
      (expression.layout style name calls) := by
  have there := object?_node_eq_some_iff.mpr found
  have simple : (Object.node node).isDirectCall = false ∧
      store.namedParts (.node id) = [] ∧
      ((Object.node node).look style).empty = "" := by
    cases node with
    | directCall => cases alone
    | constant | call | parameter | temporary =>
        simp [Object.isDirectCall, namedParts, there, Object.look, Look.empty]
  obtain ⟨noCall, noParts, empty⟩ := simple
  rw [layout_leaf alone]
  refine .of_parts (sight?_eq_some there inLimit (by simp [noCall]) name) ?_ ?_
  · simp [Layout.frame, Sight.frame, noParts, empty]
  · simp [below, noParts]

/-- The tree of an expression down to the limit shows the expression. -/
theorem displays_outlineNode? {remaining : Nat}
    (limited : style.depth ≠ 0) (limit : calls + remaining = style.depth)
    {id : NodeId} {expression : Expression}
    (outlined : store.outlineNode? remaining id = some expression)
    (name : String) :
    store.Displays style ⟨name, calls, .node id⟩
      (expression.layout style name calls) := by
  -- the object may hold itself, so the induction is on what is left of the limit
  induction remaining generalizing calls id expression name with
  | zero =>
      obtain ⟨node, found, expanded⟩ := Option.bind_eq_some_iff.mp outlined
      obtain rfl : calls = style.depth := limit
      cases node with
      | constant | call | parameter | temporary =>
          exact displays_leaf found expanded (Nat.le_refl _) name
      | directCall type tag list =>
          cases expanded
          have there := object?_node_eq_some_iff.mpr found
          rw [Expression.layout]
          simp only [DumpStyle.cuts_depth limited, if_true]
          refine .of_cut (sight?_eq_some_of_cut there rfl name) rfl rfl ?_ rfl
          simp [isDirectCall, there, Object.isDirectCall]
  | succ remaining induction =>
      obtain ⟨node, found, expanded⟩ := Option.bind_eq_some_iff.mp outlined
      have inside : calls < style.depth := by omega
      cases node with
      | constant | call | parameter | temporary =>
          exact displays_leaf found expanded (Nat.le_of_lt inside) name
      | directCall type tag list =>
          obtain ⟨arguments, entries, rfl⟩ :=
            Node.expand?_directCall_eq_some_iff.mp expanded
          obtain ⟨named, foundList, unfolded⟩ :=
            expandList?_eq_some_iff.mp entries
          have there := object?_node_eq_some_iff.mpr found
          have each : List.Forall₂ (store.Displays style)
              (named.toList.map fun entry =>
                ⟨entry.1, calls + 1, .node entry.2⟩)
              (Expression.entryLayouts style (calls + 1) arguments) :=
            forall₂_displays_entryLayouts
              (fun outlined name => induction (by omega) outlined name) unfolded
          rw [Expression.layout]
          simp only [DumpStyle.cuts_eq_false_of_lt inside, Bool.false_eq_true,
            if_false]
          refine .of_bracketed (sight?_eq_some there (Nat.le_of_lt inside)
            (fun _ => Nat.ne_of_lt inside) name) ?_
          simpa [below, namedParts, there, namedArguments, foundList,
            isDirectCall, Object.isDirectCall, Function.comp_def] using each

end Expressions

section Containers

variable {node? : NodeId → Option Expression}
  (each : ∀ {id expression}, node? id = some expression → ∀ name,
    store.Displays style ⟨name, 0, .node id⟩ (expression.layout style name 0))

include each

theorem displays_expandList? {id : ListId} {arguments : Arguments}
    (expanded : store.expandList? node? id = some arguments) (name : String) :
    store.Displays style ⟨name, 0, .list id⟩
      (Arguments.layout style name arguments) := by
  obtain ⟨list, found, entries⟩ := expandList?_eq_some_iff.mp expanded
  have there := object?_list_eq_some_iff.mpr found
  have seen := sight?_eq_some there (Nat.zero_le style.depth) nofun name
  refine .of_bracketed seen ?_
  simpa [below, namedParts, there, isDirectCall, Object.isDirectCall,
    Function.comp_def] using forall₂_displays_entryLayouts each entries

theorem displays_expandNote? {id : NoteId} {call : AnnotationCall}
    (expanded : store.expandNote? node? id = some call) (name : String) :
    store.Displays style ⟨name, 0, .note id⟩ (call.layout style name) := by
  obtain ⟨note, found, arguments, unfolded, rfl⟩ :=
    expandNote?_eq_some_iff.mp expanded
  obtain ⟨list, foundList, entries⟩ := expandList?_eq_some_iff.mp unfolded
  have there := object?_note_eq_some_iff.mpr found
  have seen := sight?_eq_some there (Nat.zero_le style.depth) nofun name
  refine .of_bracketed seen ?_
  simpa [below, namedParts, there, namedArguments, foundList, isDirectCall,
    Object.isDirectCall, Function.comp_def] using
      forall₂_displays_entryLayouts each entries

theorem forall₂_displays_blockLayouts {notes : List NoteId}
    {calls : AnnotationBlock}
    (expanded : notes.mapM (store.expandNote? node?) = some calls)
    (position : Nat) :
    List.Forall₂ (store.Displays style)
      ((notes.zipIdx position).map fun entry =>
        ⟨toString entry.2, 0, .note entry.1⟩)
      (AnnotationBlock.entryLayouts style position calls) := by
  induction notes generalizing calls position with
  | nil =>
      cases expanded
      exact .nil
  | cons note rest induction =>
      obtain ⟨call, found, others, foundOthers, rfl⟩ :=
        mapM_cons_eq_some_iff.mp expanded
      exact .cons (displays_expandNote? each found _)
        (induction foundOthers (position + 1))

theorem displays_expandBlock? {id : BlockId} {calls : AnnotationBlock}
    (expanded : store.expandBlock? node? id = some calls) (name : String) :
    store.Displays style ⟨name, 0, .block id⟩
      (AnnotationBlock.layout style name calls) := by
  obtain ⟨notes, found, entries⟩ := expandBlock?_eq_some_iff.mp expanded
  have there := object?_block_eq_some_iff.mpr found
  have seen := sight?_eq_some there (Nat.zero_le style.depth) nofun name
  refine .of_bracketed seen ?_
  simpa [below, namedParts, there, isDirectCall, Object.isDirectCall,
    Function.comp_def] using forall₂_displays_blockLayouts each entries 0

theorem displays_expandTable? {id : TableId} {entries : AnnotationTable}
    (expanded : store.expandTable? node? id = some entries) (name : String) :
    store.Displays style ⟨name, 0, .table id⟩
      (AnnotationTable.layout style name entries) := by
  obtain ⟨table, found, blocks⟩ := expandTable?_eq_some_iff.mp expanded
  have there := object?_table_eq_some_iff.mpr found
  have eachBlock : List.Forall₂ (store.Displays style)
      (table.toList.map fun entry => ⟨entry.1, 0, .block entry.2⟩)
      (entries.map fun entry =>
        AnnotationBlock.layout style entry.1 entry.2) := by
    rw [List.forall₂_map_left_iff, List.forall₂_map_right_iff]
    exact forall₂_of_mapEntries? (displays_expandBlock? each) blocks
  have seen := sight?_eq_some there (Nat.zero_le style.depth) nofun name
  refine .of_bracketed seen ?_
  simpa [below, namedParts, there, isDirectCall, Object.isDirectCall,
    Function.comp_def] using eachBlock

theorem displays_expand? {handle : Handle} {tree : Tree}
    (expanded : store.expand? node? handle = some tree) (name : String) :
    store.Displays style ⟨name, 0, handle⟩ (tree.layout style name) := by
  cases handle with
  | node id =>
      obtain ⟨root, found, rfl⟩ := Option.map_eq_some_iff.mp expanded
      exact each found name
  | list id =>
      obtain ⟨arguments, found, rfl⟩ := Option.map_eq_some_iff.mp expanded
      exact displays_expandList? each found name
  | note id =>
      obtain ⟨call, found, rfl⟩ := Option.map_eq_some_iff.mp expanded
      exact displays_expandNote? each found name
  | block id =>
      obtain ⟨calls, found, rfl⟩ := Option.map_eq_some_iff.mp expanded
      exact displays_expandBlock? each found name
  | table id =>
      obtain ⟨entries, found, rfl⟩ := Option.map_eq_some_iff.mp expanded
      exact displays_expandTable? each found name

end Containers

theorem Closed.has_of_mem_children (closed : store.Closed) {handle part : Handle}
    {object : Object} (there : store.object? handle = some object)
    (held : part ∈ object.children) : store.Has part := by
  have owns : store.Owns handle part := by
    rwa [Owns, children_of_object?_eq_some there]
  exact closed owns

section Ending

variable {node? : NodeId → Option Expression} (closed : store.Closed)

include closed

theorem isSome_expandList?_of_has
    (each : ∀ {id}, store.Has (.node id) → (node? id).isSome) {id : ListId}
    (has : store.Has (.list id)) : (store.expandList? node? id).isSome := by
  obtain ⟨object, there⟩ := Option.isSome_iff_exists.mp has
  obtain ⟨list, found, rfl⟩ := Option.map_eq_some_iff.mp there
  refine isSome_expandList? found fun child member => each ?_
  exact closed.has_of_mem_children there (List.mem_map_of_mem member)

theorem isSome_expandNote?_of_has
    (each : ∀ {id}, store.Has (.node id) → (node? id).isSome) {id : NoteId}
    (has : store.Has (.note id)) : (store.expandNote? node? id).isSome := by
  obtain ⟨object, there⟩ := Option.isSome_iff_exists.mp has
  obtain ⟨note, found, rfl⟩ := Option.map_eq_some_iff.mp there
  refine isSome_expandNote? found (isSome_expandList?_of_has closed each ?_)
  exact closed.has_of_mem_children there (List.mem_singleton_self _)

theorem isSome_expandBlock?_of_has
    (each : ∀ {id}, store.Has (.node id) → (node? id).isSome) {id : BlockId}
    (has : store.Has (.block id)) : (store.expandBlock? node? id).isSome := by
  obtain ⟨object, there⟩ := Option.isSome_iff_exists.mp has
  obtain ⟨notes, found, rfl⟩ := Option.map_eq_some_iff.mp there
  refine isSome_expandBlock? found fun child member =>
    isSome_expandNote?_of_has closed each ?_
  exact closed.has_of_mem_children there (List.mem_map_of_mem member)

theorem isSome_expandTable?_of_has
    (each : ∀ {id}, store.Has (.node id) → (node? id).isSome) {id : TableId}
    (has : store.Has (.table id)) : (store.expandTable? node? id).isSome := by
  obtain ⟨object, there⟩ := Option.isSome_iff_exists.mp has
  obtain ⟨table, found, rfl⟩ := Option.map_eq_some_iff.mp there
  refine isSome_expandTable? found fun child member =>
    isSome_expandBlock?_of_has closed each ?_
  exact closed.has_of_mem_children there (List.mem_map_of_mem member)

theorem isSome_outlineNode? (remaining : Nat) {id : NodeId}
    (has : store.Has (.node id)) : (store.outlineNode? remaining id).isSome := by
  induction remaining generalizing id with
  | zero =>
      obtain ⟨object, there⟩ := Option.isSome_iff_exists.mp has
      obtain ⟨node, found, rfl⟩ := Option.map_eq_some_iff.mp there
      rw [outlineNode?, found, Option.bind_some]
      cases node <;> rfl
  | succ remaining induction =>
      obtain ⟨object, there⟩ := Option.isSome_iff_exists.mp has
      obtain ⟨node, found, rfl⟩ := Option.map_eq_some_iff.mp there
      rw [outlineNode?, found, Option.bind_some]
      cases node with
      | constant | call | parameter | temporary => rfl
      | directCall type tag list =>
          have hasList :=
            closed.has_of_mem_children there (List.mem_singleton_self _)
          obtain ⟨arguments, entries⟩ := Option.isSome_iff_exists.mp
            (isSome_expandList?_of_has closed induction hasList)
          exact Option.isSome_of_eq_some
            (Node.expand?_directCall_eq_some_iff.mpr ⟨arguments, entries, rfl⟩)

/-- Every object has an outline, whether it holds itself or not. -/
theorem isSome_outline? (calls : Nat) {handle : Handle}
    (has : store.Has handle) : (store.outline? calls handle).isSome := by
  have each : ∀ {id}, store.Has (.node id) →
      (store.outlineNode? calls id).isSome := isSome_outlineNode? closed calls
  cases handle with
  | node id => simpa [outline?, expand?] using each has
  | list id =>
      simpa [outline?, expand?] using isSome_expandList?_of_has closed each has
  | note id =>
      simpa [outline?, expand?] using isSome_expandNote?_of_has closed each has
  | block id =>
      simpa [outline?, expand?] using isSome_expandBlock?_of_has closed each has
  | table id =>
      simpa [outline?, expand?] using isSome_expandTable?_of_has closed each has

/-- A dump with a limit shows the object. -/
theorem exists_dump_displays {handle : Handle} (has : store.Has handle)
    (limited : style.depth ≠ 0) (name : String) :
    ∃ layout, store.dump style name handle =
        .ok (layout.render style.indentWidth) ∧
      store.Displays style ⟨name, 0, handle⟩ layout := by
  obtain ⟨tree, outlined⟩ :=
    Option.isSome_iff_exists.mp (isSome_outline? closed style.depth has)
  refine ⟨tree.layout style name, ?_, ?_⟩
  · rw [tree.render_layout]
    exact dump_eq_ok_of_outline? limited outlined name
  · exact displays_expand? (displays_outlineNode? limited (Nat.zero_add _))
      outlined name

end Ending

/-- Objects that look the same down to the limit have the same dump. -/
theorem dump_eq_of_sightAt?_eq {store' : Store} {handle handle' : Handle}
    {names' : Option TagNames} {name : String} (closed : store.Closed)
    (closed' : store'.Closed) (has : store.Has handle)
    (limited : style.depth ≠ 0)
    (same : ∀ way, store.sightAt? style ⟨name, 0, handle⟩ way =
      store'.sightAt? { style with names := names' } ⟨name, 0, handle'⟩ way) :
    store'.dump { style with names := names' } name handle' =
      store.dump style name handle := by
  have has' : store'.Has handle' := by
    obtain ⟨object, there⟩ := Option.isSome_iff_exists.mp has
    have seen := same []
    simp only [sightAt?_nil, sight?, Nat.not_lt_zero, if_false, there,
      Option.map_some] at seen
    obtain ⟨object', there', -⟩ := Option.map_eq_some_iff.mp seen.symm
    exact has_of_object?_eq_some there'
  obtain ⟨layout, dumped, displays⟩ :=
    exists_dump_displays closed has limited name
  have limited' : { style with names := names' }.depth ≠ 0 := limited
  obtain ⟨layout', dumped', displays'⟩ :=
    exists_dump_displays closed' has' limited' name
  have sameLayout : layout = layout' := Layout.eq_of_frames fun way => by
    rw [displays way, displays' way, same way]
  rw [dumped, dumped', sameLayout]

section DirectCalls

variable {layout : Layout} {way : List Nat} {call : Visit} {type : ValueType}
  {tag : Tag} {list : ListId}

/-- The line of a direct call up to its arguments. -/
def callTitle (style : DumpStyle) (name : String) (type : ValueType)
    (tag : Tag) : String :=
  Look.title style.showTypes name (.directCall type.text (style.target tag))

theorem Displays.exists_part (displays : store.Displays style visit layout)
    (arrived : store.visit? visit way = some call)
    (there : store.object? call.handle = some (.node (.directCall type tag list)))
    (inLimit : call.calls ≤ style.depth) :
    ∃ part, layout.at? way = some part ∧ part.frame =
      Sight.frame style.showTypes ⟨call.name,
        .directCall type.text (style.target tag),
        if call.calls = style.depth then none
        else some ((store.namedArguments list).map Prod.fst)⟩ := by
  have shown := displays way
  have noDeeper : ¬style.depth < call.calls := Nat.not_lt_of_le inLimit
  simp only [sightAt?, arrived, Option.bind_some, sight?, noDeeper, if_false,
    there, Option.map_some, Object.isDirectCall, Bool.true_and, beq_iff_eq,
    namedParts, Object.look] at shown
  exact Option.map_eq_some_iff.mp shown

/-- A direct call below fewer direct calls than the limit is expanded. -/
theorem Displays.expanded (displays : store.Displays style visit layout)
    (arrived : store.visit? visit way = some call)
    (there : store.object? call.handle = some (.node (.directCall type tag list)))
    (inside : call.calls < style.depth) :
    ∃ part, layout.at? way = some part ∧
      part.parts.length = (store.namedArguments list).length ∧
      part.opening = callTitle style call.name type tag ++
        if part.parts = [] then "()" else "(" := by
  obtain ⟨part, taken, frame⟩ :=
    displays.exists_part arrived there (Nat.le_of_lt inside)
  rw [if_neg (Nat.ne_of_lt inside)] at frame
  refine ⟨part, taken, ?_⟩
  rw [← List.length_map (Prod.fst : String × Handle → String)]
  obtain ⟨opening, parts, closing⟩ := part
  revert frame
  generalize (store.namedArguments list).map Prod.fst = names
  intro frame
  cases names with
  | nil =>
      obtain ⟨rfl, size, -⟩ := Frame.mk.inj frame
      cases List.length_eq_zero_iff.mp size
      exact ⟨rfl, rfl⟩
  | cons name names =>
      obtain ⟨rfl, size, -⟩ := Frame.mk.inj frame
      refine ⟨size, ?_⟩
      cases parts with
      | nil => cases size
      | cons => rfl

/-- A direct call at the limit is shown without arguments. -/
theorem Displays.cut (displays : store.Displays style visit layout)
    (arrived : store.visit? visit way = some call)
    (there : store.object? call.handle = some (.node (.directCall type tag list)))
    (atLimit : call.calls = style.depth) :
    layout.at? way =
      some ⟨callTitle style call.name type tag ++ "(...)", [], ""⟩ := by
  obtain ⟨⟨opening, parts, closing⟩, taken, frame⟩ :=
    displays.exists_part arrived there (Nat.le_of_eq atLimit)
  rw [if_pos atLimit] at frame
  obtain ⟨rfl, size, rfl⟩ := Frame.mk.inj frame
  cases List.length_eq_zero_iff.mp size
  exact taken

end DirectCalls

/-- A dump with a limit ends.  A direct call on a way is expanded exactly if it
is below fewer direct calls than the limit; else its arguments are not shown,
even if it has none, and its line ends in `(...)`.  An object in another store
that looks the same down to the limit has the same dump. -/
theorem dump_looks_to_limit (operations : List Operation) {handle : Handle}
    (has : (run {} operations).Has handle) {style : DumpStyle}
    (limited : style.depth ≠ 0) (name : String) :
    (∃ layout : Layout,
      (run {} operations).dump style name handle =
        .ok (layout.render style.indentWidth) ∧
      (run {} operations).Displays style ⟨name, 0, handle⟩ layout ∧
      ∀ way call type tag list,
        (run {} operations).visit? ⟨name, 0, handle⟩ way = some call →
        (run {} operations).object? call.handle =
          some (.node (.directCall type tag list)) →
        (call.calls < style.depth → ∃ part, layout.at? way = some part ∧
          part.parts.length =
            ((run {} operations).namedArguments list).length ∧
          part.opening = callTitle style call.name type tag ++
            if part.parts = [] then "()" else "(") ∧
        (call.calls = style.depth → layout.at? way =
          some ⟨callTitle style call.name type tag ++ "(...)", [], ""⟩ ∧
          HasLine (layout.render style.indentWidth).toList
            (List.replicate (style.indentWidth * way.length) ' ' ++
              (callTitle style call.name type tag ++ "(...)").toList)) ∧
        (style.depth < call.calls → layout.at? way = none)) ∧
    ∀ operations' handle' names',
      (∀ way, (run {} operations).sightAt? style ⟨name, 0, handle⟩ way =
        (run {} operations').sightAt? { style with names := names' }
          ⟨name, 0, handle'⟩ way) →
      (run {} operations').dump { style with names := names' } name handle' =
        (run {} operations).dump style name handle := by
  have closed := closed_run operations
  refine ⟨?_, fun operations' handle' names' same =>
    dump_eq_of_sightAt?_eq closed (closed_run operations') has limited same⟩
  obtain ⟨layout, dumped, displays⟩ :=
    exists_dump_displays closed has limited name
  refine ⟨layout, dumped, displays, ?_⟩
  intro way call type tag list arrived there
  refine ⟨displays.expanded arrived there, fun atLimit => ?_, fun deep => ?_⟩
  · have cut := displays.cut arrived there atLimit
    exact ⟨cut, Layout.hasLine_render style.indentWidth cut⟩
  have hidden := displays way
  rw [sightAt?, arrived, Option.bind_some, sight?, if_pos deep] at hidden
  exact Option.map_eq_none_iff.mp hidden

/-- What is seen down to one direct call if there is another below it. -/
theorem sightAt?_callOfCall {style : DumpStyle} (one : style.depth = 1)
    {id child : NodeId} {type type' : ValueType} {tag tag' : Tag}
    {list list' : ListId} {named : Named NodeId} {argument : String}
    (outer : store.node? id = some (.directCall type tag list))
    (arguments : store.list? list = some named)
    (entries : named.toList = [(argument, child)])
    (inner : store.node? child = some (.directCall type' tag' list'))
    (name : String) :
    ∀ way, store.sightAt? style ⟨name, 0, .node id⟩ way =
      match way with
      | [] => some ⟨name, .directCall type.text (style.target tag),
          some [argument]⟩
      | [0] => some ⟨argument, .directCall type'.text (style.target tag'), none⟩
      | _ => none := by
  have outerThere := object?_node_eq_some_iff.mpr outer
  have innerThere := object?_node_eq_some_iff.mpr inner
  have below : store.below ⟨name, 0, .node id⟩ = [⟨argument, 1, .node child⟩] := by
    simp [Store.below, namedParts, outerThere, namedArguments, arguments, entries,
      isDirectCall, Object.isDirectCall]
  rintro (_ | ⟨_ | position, rest⟩)
  · simp [sightAt?_nil, sight?, outerThere, one, namedParts, namedArguments,
      arguments, entries, Object.look]
  · rw [sightAt?_cons, below, List.getElem?_cons_zero, Option.bind_some]
    cases rest with
    | nil =>
        simp [sightAt?_nil, sight?, innerThere, one, Object.isDirectCall,
          Object.look]
    | cons position rest =>
        rw [sightAt?_cons]
        cases taken : (store.below ⟨argument, 1, .node child⟩)[position]? with
        | none => rfl
        | some visit =>
            have counted := calls_of_getElem?_below taken
            simp only [isDirectCall, innerThere, Option.any_some,
              Object.isDirectCall, if_true] at counted
            exact sightAt?_eq_none (by omega) rest
  · rw [sightAt?_cons, below]
    rfl

/-- A direct call is put into the list of arguments of another. -/
def callOfCall : List Operation :=
  [.newList, .newDirectCall (.basic .material) ⟨7⟩ (.list ⟨0⟩),
    .newList, .newDirectCall (.basic .material) ⟨7⟩ (.list ⟨1⟩),
    .add (.list ⟨1⟩) (some "self") (.node ⟨0⟩)]

theorem dump_looks_to_limit_selfHoldingCall :
    (run {} selfHoldingCall).Has (.node ⟨0⟩) ∧
      ({ depth := 1 } : DumpStyle).depth ≠ 0 ∧
      (∃ layout : Layout,
        (run {} selfHoldingCall).dump { depth := 1 } "m" (.node ⟨0⟩) =
          .ok (layout.render 4) ∧
        layout.at? [0] =
          some ⟨"direct_call self: material = tag 7(...)", [], ""⟩ ∧
        HasLine (layout.render 4).toList
          "    direct_call self: material = tag 7(...)".toList) ∧
      (run {} callOfCall).dump { depth := 1 } "m" (.node ⟨1⟩) =
        (run {} selfHoldingCall).dump { depth := 1 } "m" (.node ⟨0⟩) := by
  let before := run {} (selfHoldingCall.take 2)
  let before' := run {} (callOfCall.take 4)
  obtain ⟨extended, result, -, entries⟩ := exists_apply_add
    Named.consistent_empty (rfl : before.list? ⟨0⟩ = some {})
    (rfl : before.node? ⟨0⟩ = some (.directCall (.basic .material) ⟨7⟩ ⟨0⟩))
    (List.not_mem_nil : "self" ∉ [])
  obtain ⟨extended', result', -, entries'⟩ := exists_apply_add
    Named.consistent_empty (rfl : before'.list? ⟨1⟩ = some {})
    (rfl : before'.node? ⟨0⟩ = some (.directCall (.basic .material) ⟨7⟩ ⟨0⟩))
    (List.not_mem_nil : "self" ∉ [])
  have ran : run {} selfHoldingCall = before.setList ⟨0⟩ extended :=
    run_singleton_of_ok result
  have ran' : run {} callOfCall = before'.setList ⟨1⟩ extended' :=
    run_singleton_of_ok result'
  have call : (run {} selfHoldingCall).node? ⟨0⟩ =
      some (.directCall (.basic .material) ⟨7⟩ ⟨0⟩) := by
    rw [ran]
    rfl
  have arguments : (run {} selfHoldingCall).list? ⟨0⟩ = some extended := by
    rw [ran]
    rfl
  have has : (run {} selfHoldingCall).Has (.node ⟨0⟩) :=
    has_of_object?_eq_some (object?_node_eq_some_iff.mpr call)
  have limited : ({ depth := 1 } : DumpStyle).depth ≠ 0 := by decide
  obtain ⟨⟨layout, dumped, -, calls⟩, sameDump⟩ :=
    dump_looks_to_limit selfHoldingCall has limited "m"
  have arrived : (run {} selfHoldingCall).visit? ⟨"m", 0, .node ⟨0⟩⟩ [0] =
      some ⟨"self", 1, .node ⟨0⟩⟩ := by
    simp [visit?, below, namedParts, object?_node_eq_some_iff.mpr call,
      namedArguments, arguments, entries, isDirectCall, Object.isDirectCall]
    rfl
  obtain ⟨cut, line⟩ := (calls [0] _ _ _ _ arrived
    (object?_node_eq_some_iff.mpr call)).2.1 rfl
  refine ⟨has, limited, ⟨layout, dumped, cut, line⟩,
    sameDump callOfCall _ none ?_⟩
  intro way
  rw [sightAt?_callOfCall rfl call arguments entries call,
    sightAt?_callOfCall rfl (by rw [ran']; rfl) (by rw [ran']; rfl) entries'
      (by rw [ran']; rfl)]

end Store

end MaterialGraph
