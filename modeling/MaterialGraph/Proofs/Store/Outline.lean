import MaterialGraph.Proofs.Store.Walks

/-!
# Queries see the tree of an object

Bytes, dumps and memory of an object without cycles are those of its tree.  For
a dump with a limit of depth this holds because the outline that is looked at
is the tree cut off below the limit.
-/

namespace MaterialGraph

namespace Expression

/-- The expression down to a number of direct calls. -/
def outline : (calls : Nat) → Expression → Expression
  | 0, directCall type tag _ => directCall type tag []
  | calls + 1, directCall type tag arguments =>
      directCall type tag
        (arguments.map fun entry => (entry.1, outline calls entry.2))
  | _, leaf => leaf

end Expression

section MapExpressions

variable (change : Expression → Expression)

def Arguments.mapExpressions (arguments : Arguments) : Arguments :=
  arguments.map fun entry => (entry.1, change entry.2)

def AnnotationCall.mapExpressions (call : AnnotationCall) : AnnotationCall :=
  ⟨call.name, Arguments.mapExpressions change call.arguments⟩

def AnnotationBlock.mapExpressions (block : AnnotationBlock) :
    AnnotationBlock :=
  block.map (AnnotationCall.mapExpressions change)

def AnnotationTable.mapExpressions (table : AnnotationTable) :
    AnnotationTable :=
  table.map fun entry => (entry.1, AnnotationBlock.mapExpressions change entry.2)

/-- The tree with its outermost expressions changed. -/
def Tree.mapExpressions : Tree → Tree
  | expression root => expression (change root)
  | arguments entries => arguments (Arguments.mapExpressions change entries)
  | annotationCall call => annotationCall (call.mapExpressions change)
  | annotationBlock calls =>
      annotationBlock (AnnotationBlock.mapExpressions change calls)
  | annotationTable entries =>
      annotationTable (AnnotationTable.mapExpressions change entries)

end MapExpressions

namespace Tree

/-- What a dump in a style looks at. -/
def visible (style : DumpStyle) (tree : Tree) : Tree :=
  if style.depth = 0 then tree
  else tree.mapExpressions (Expression.outline style.depth)

end Tree

/-- Wherever one function is defined, the other has the changed value. -/
def ChangedBy {α β : Type} (change : β → β) (found? changed? : α → Option β) :
    Prop :=
  ∀ ⦃key : α⦄ ⦃found : β⦄, found? key = some found →
    changed? key = some (change found)

section Entries

variable {α β : Type} {change : β → β} {found? changed? : α → Option β}

theorem mapEntries?_changedBy (changes : ChangedBy change found? changed?) :
    ChangedBy (fun entries => entries.map fun entry => (entry.1, change entry.2))
      (mapEntries? found?) (mapEntries? changed?) := by
  intro entries found result
  induction entries generalizing found with
  | nil =>
      cases result
      rfl
  | cons entry rest induction =>
      obtain ⟨child, foundChild, others, foundOthers, rfl⟩ :=
        mapEntries?_cons_eq_some_iff.mp result
      exact mapEntries?_cons_eq_some_iff.mpr
        ⟨change child, changes foundChild, _, induction foundOthers, rfl⟩

theorem mapM_changedBy (changes : ChangedBy change found? changed?) :
    ChangedBy (List.map change) (List.mapM found?) (List.mapM changed?) := by
  intro children found result
  induction children generalizing found with
  | nil =>
      cases result
      rfl
  | cons child rest induction =>
      obtain ⟨first, foundFirst, others, foundOthers, rfl⟩ :=
        mapM_cons_eq_some_iff.mp result
      exact mapM_cons_eq_some_iff.mpr
        ⟨change first, changes foundFirst, _, induction foundOthers, rfl⟩

end Entries

namespace Store

section Expand

variable {store : Store} {change : Expression → Expression}
  {node? changed? : NodeId → Option Expression}

theorem expandList?_changedBy (changes : ChangedBy change node? changed?) :
    ChangedBy (Arguments.mapExpressions change) (store.expandList? node?)
      (store.expandList? changed?) := by
  intro id arguments result
  rw [expandList?_eq_some_iff] at result ⊢
  obtain ⟨list, found, entries⟩ := result
  exact ⟨list, found, mapEntries?_changedBy changes entries⟩

theorem expandNote?_changedBy (changes : ChangedBy change node? changed?) :
    ChangedBy (AnnotationCall.mapExpressions change) (store.expandNote? node?)
      (store.expandNote? changed?) := by
  intro id call result
  rw [expandNote?_eq_some_iff] at result ⊢
  obtain ⟨note, found, arguments, entries, rfl⟩ := result
  exact ⟨note, found, _, expandList?_changedBy changes entries, rfl⟩

theorem expandBlock?_changedBy (changes : ChangedBy change node? changed?) :
    ChangedBy (AnnotationBlock.mapExpressions change) (store.expandBlock? node?)
      (store.expandBlock? changed?) := by
  intro id calls result
  rw [expandBlock?_eq_some_iff] at result ⊢
  obtain ⟨notes, found, entries⟩ := result
  exact ⟨notes, found, mapM_changedBy (expandNote?_changedBy changes) entries⟩

theorem expandTable?_changedBy (changes : ChangedBy change node? changed?) :
    ChangedBy (AnnotationTable.mapExpressions change) (store.expandTable? node?)
      (store.expandTable? changed?) := by
  intro id entries result
  rw [expandTable?_eq_some_iff] at result ⊢
  obtain ⟨table, found, blocks⟩ := result
  exact ⟨table, found,
    mapEntries?_changedBy (expandBlock?_changedBy changes) blocks⟩

theorem expand?_changedBy (changes : ChangedBy change node? changed?) :
    ChangedBy (Tree.mapExpressions change) (store.expand? node?)
      (store.expand? changed?) := by
  intro handle tree result
  cases handle with
  | node id =>
      obtain ⟨root, found, rfl⟩ := Option.map_eq_some_iff.mp result
      exact Option.map_eq_some_iff.mpr ⟨_, changes found, rfl⟩
  | list id =>
      obtain ⟨entries, found, rfl⟩ := Option.map_eq_some_iff.mp result
      exact Option.map_eq_some_iff.mpr
        ⟨_, expandList?_changedBy changes found, rfl⟩
  | note id =>
      obtain ⟨call, found, rfl⟩ := Option.map_eq_some_iff.mp result
      exact Option.map_eq_some_iff.mpr
        ⟨_, expandNote?_changedBy changes found, rfl⟩
  | block id =>
      obtain ⟨calls, found, rfl⟩ := Option.map_eq_some_iff.mp result
      exact Option.map_eq_some_iff.mpr
        ⟨_, expandBlock?_changedBy changes found, rfl⟩
  | table id =>
      obtain ⟨entries, found, rfl⟩ := Option.map_eq_some_iff.mp result
      exact Option.map_eq_some_iff.mpr
        ⟨_, expandTable?_changedBy changes found, rfl⟩

end Expand

variable {store : Store} {handle : Handle} {tree : Tree}

/-- The outline of an expression is the outline of its tree. -/
theorem outlineNode?_changedBy (calls length : Nat) :
    ChangedBy (Expression.outline calls) (store.unfoldNode? length)
      (store.outlineNode? calls) := by
  intro id expression unfolds
  induction calls generalizing length id expression with
  | zero =>
      cases length with
      | zero => cases unfolds
      | succ length =>
          obtain ⟨node, found, expanded⟩ :=
            unfoldNode?_succ_eq_some_iff.mp unfolds
          simp only [outlineNode?, found, Option.bind_some]
          cases node with
          | constant | call | parameter | temporary =>
              cases expanded
              rfl
          | directCall type tag list =>
              obtain ⟨arguments, -, rfl⟩ :=
                Node.expand?_directCall_eq_some_iff.mp expanded
              rfl
  | succ calls induction =>
      cases length with
      | zero => cases unfolds
      | succ length =>
          obtain ⟨node, found, expanded⟩ :=
            unfoldNode?_succ_eq_some_iff.mp unfolds
          simp only [outlineNode?, found, Option.bind_some]
          cases node with
          | constant | call | parameter | temporary =>
              cases expanded
              rfl
          | directCall type tag list =>
              obtain ⟨arguments, entries, rfl⟩ :=
                Node.expand?_directCall_eq_some_iff.mp expanded
              exact Node.expand?_directCall_eq_some_iff.mpr
                ⟨_, expandList?_changedBy (induction length) entries, rfl⟩

theorem outline?_eq_some (unfolds : store.unfolding? handle = some tree)
    (calls : Nat) :
    store.outline? calls handle =
      some (tree.mapExpressions (Expression.outline calls)) :=
  expand?_changedBy (outlineNode?_changedBy calls store.nodes.size) unfolds

theorem encode_eq_ok (consistent : store.Consistent)
    (unfolds : store.unfolding? handle = some tree) :
    store.encode handle = .ok tree.encode := by
  rw [Store.encode, encode?_eq consistent, unfolds]
  rfl

theorem footprint_eq_ok (consistent : store.Consistent)
    (unfolds : store.unfolding? handle = some tree) :
    store.footprint handle = .ok tree.footprint := by
  rw [Store.footprint, memory?_tight_eq consistent, unfolds]
  rfl

/-- A dump is the dump of what it sees. -/
theorem dump_eq_ok_of_seen {style : DumpStyle}
    (seen : store.expand? (store.seenNode? style) handle = some tree)
    (name : String) :
    store.dump style name handle = .ok (tree.dump style name) := by
  rw [Store.dump, lines?_eq, seen]
  rfl

theorem dump_eq_ok_of_outline? {style : DumpStyle} (limited : style.depth ≠ 0)
    (outlined : store.outline? style.depth handle = some tree)
    (name : String) :
    store.dump style name handle = .ok (tree.dump style name) := by
  refine dump_eq_ok_of_seen ?_ name
  rw [seenNode?, if_neg limited]
  exact outlined

theorem dump_eq_ok (unfolds : store.unfolding? handle = some tree)
    (style : DumpStyle) (name : String) :
    store.dump style name handle = .ok ((tree.visible style).dump style name) := by
  refine dump_eq_ok_of_seen ?_ name
  unfold seenNode? Tree.visible
  split
  · exact unfolds
  · exact outline?_eq_some unfolds style.depth

end Store

end MaterialGraph
