import MaterialGraph.Proofs.Store.Copying

/-!
# A clone holds what its original holds

Cloning does the same whatever the types and values of a store are, and can
therefore do no more than hand them on.  If they are references, an expression
of the clone has the very references of the expression at the same place of the
original, also where others refer to equal values.

Two references are told apart by giving them different values: the clone would
then have another tree than its original, which it never has.
-/

namespace MaterialGraph

variable {Types Values Types' Values' : Type}

/-- The value of a constant. -/
def Expression.value? : Expression → Option Value
  | constant _ value => some value
  | call .. | parameter .. | directCall .. | temporary .. => none

namespace Node

/-- The value of a constant. -/
def value? : Node Types Values → Option Values
  | constant _ value => some value
  | call .. | parameter .. | directCall .. | temporary .. => none

/-- The same expression with its type and its value replaced. -/
def relabel (type : Types → Types') (value : Values → Values') :
    Node Types Values → Node Types' Values'
  | constant held content => constant (type held) (value content)
  | call held tag => call (type held) tag
  | parameter held index => parameter (type held) index
  | directCall held tag list => directCall (type held) tag list
  | temporary held index => temporary (type held) index

theorem type_relabel (type : Types → Types') (value : Values → Values')
    (node : Node Types Values) :
    (node.relabel type value).type = type node.type := by
  cases node <;> rfl

theorem value?_relabel (type : Types → Types') (value : Values → Values')
    (node : Node Types Values) :
    (node.relabel type value).value? = node.value?.map value := by
  cases node <;> rfl

theorem expand?_value? {arguments? : ListId → Option Arguments} {node : Node}
    {expression : Expression}
    (expanded : node.expand? arguments? = some expression) :
    expression.value? = node.value? := by
  cases node with
  | directCall type tag list =>
      obtain ⟨arguments, -, rfl⟩ := expand?_directCall_eq_some_iff.mp expanded
      rfl
  | constant | call | parameter | temporary =>
      cases expanded
      rfl

end Node

namespace Object

/-- The same object with its type and its value replaced. -/
def relabel (type : Types → Types') (value : Values → Values') :
    Object Types Values → Object Types' Values'
  | node held => node (held.relabel type value)
  | list held => list held
  | note held => note held
  | block held => block held
  | table held => table held

theorem children_relabel (type : Types → Types') (value : Values → Values')
    (object : Object Types Values) :
    (object.relabel type value).children = object.children := by
  cases object with
  | node held => cases held <;> rfl
  | list | note | block | table => rfl

end Object

/-- The trees that a tree is put together from. -/
def Tree.children : Tree → List Tree
  | expression (.directCall _ _ entries) => [arguments entries]
  | expression _ => []
  | arguments entries => entries.map fun entry => expression entry.2
  | annotationCall call => [arguments call.arguments]
  | annotationBlock calls => calls.map annotationCall
  | annotationTable entries =>
      entries.map fun entry => annotationBlock entry.2

theorem Object.Assembles.trees_eq {object : Object} {trees : List Tree}
    {tree : Tree} (assembles : object.Assembles trees tree) :
    trees = tree.children := by
  cases assembles with
  | @leaf node _ alone =>
      cases node with
      | constant | call | parameter | temporary =>
          cases alone
          rfl
      | directCall => cases alone
  | directCall | list | note | block | table => rfl

namespace Store

/-- The same store with all types and values replaced. -/
def relabel (type : Types → Types') (value : Values → Values')
    (store : Store Types Values) : Store Types' Values' where
  nodes := store.nodes.map (Node.relabel type value)
  lists := store.lists
  notes := store.notes
  blocks := store.blocks
  tables := store.tables

/-- Every expression below an object has the type and the value of the
expression at the same place below another object. -/
def HoldsAs (store' : Store Types Values) (handle' : Handle)
    (store : Store Types Values) (handle : Handle) : Prop :=
  ∀ path id', store'.Path handle' path (.node id') →
    ∃ id node node', store.Path handle path (.node id) ∧
      store.node? id = some node ∧ store'.node? id' = some node' ∧
      node'.type = node.type ∧ node'.value? = node.value?

section Relabel

variable (type : Types → Types') (value : Values → Values')
  (store : Store Types Values)

theorem node?_relabel (id : NodeId) :
    (store.relabel type value).node? id =
      (store.node? id).map (Node.relabel type value) := by
  simp [node?, relabel]

theorem size_nodes_relabel :
    (store.relabel type value).nodes.size = store.nodes.size :=
  Array.size_map

theorem object?_relabel (handle : Handle) :
    (store.relabel type value).object? handle =
      (store.object? handle).map (Object.relabel type value) := by
  cases handle with
  | node id => simp [object?, node?_relabel, Function.comp_def, Object.relabel]
  | list | note | block | table =>
      simp only [object?, Option.map_map]
      rfl

theorem has_relabel_iff (handle : Handle) :
    (store.relabel type value).Has handle ↔ store.Has handle := by
  rw [Has, object?_relabel, Option.isSome_map, Has]

theorem children_relabel (handle : Handle) :
    (store.relabel type value).children handle = store.children handle := by
  simp [children, object?_relabel, Function.comp_def, Object.children_relabel]

theorem path_relabel_iff {root part : Handle} {path : List Nat} :
    (store.relabel type value).Path root path part ↔
      store.Path root path part := by
  constructor
  · intro way
    induction way with
    | here => exact .here _
    | down taken _ induction =>
        rw [children_relabel] at taken
        exact .down taken induction
  · intro way
    induction way with
    | here => exact .here _
    | down taken _ induction =>
        rw [← children_relabel type value] at taken
        exact .down taken induction

theorem consistent_relabel_iff :
    (store.relabel type value).Consistent ↔ store.Consistent :=
  ⟨fun consistent => ⟨consistent.lists, consistent.tables⟩,
    fun consistent => ⟨consistent.lists, consistent.tables⟩⟩

theorem closed_relabel_iff :
    (store.relabel type value).Closed ↔ store.Closed := by
  simp [Closed, Owns, children_relabel, has_relabel_iff]

end Relabel

section Naturality

variable {type : Types → Types'} {value : Values → Values'} {α β : Type}

/-- One procedure does what another does, on stores with other types and
values. -/
def Relabels (type : Types → Types') (value : Values → Values')
    (procedure : StateT (Store Types Values) Option α)
    (procedure' : StateT (Store Types' Values') Option α) : Prop :=
  ∀ store, StateT.run procedure' (store.relabel type value) =
    (StateT.run procedure store).map
      fun done => (done.1, done.2.relabel type value)

namespace Relabels

theorem pure (result : α) :
    Relabels type value (Pure.pure result) (Pure.pure result) :=
  fun _ => rfl

theorem fail :
    Relabels type value (MonadFail.fail : StateT _ _ α)
      (MonadFail.fail : StateT _ _ α) :=
  fun _ => rfl

variable {procedure : StateT (Store Types Values) Option α}
  {procedure' : StateT (Store Types' Values') Option α}

theorem bind (first : Relabels type value procedure procedure')
    {next : α → StateT (Store Types Values) Option β}
    {next' : α → StateT (Store Types' Values') Option β}
    (later : ∀ result, Relabels type value (next result) (next' result)) :
    Relabels type value (procedure >>= next) (procedure' >>= next') := by
  intro store
  rw [StateT.run_bind, StateT.run_bind, first store]
  cases StateT.run procedure store with
  | none => rfl
  | some done => exact later done.1 done.2

theorem map (wrap : α → β) (relabels : Relabels type value procedure procedure') :
    Relabels type value (wrap <$> procedure) (wrap <$> procedure') := by
  intro store
  rw [StateT.run_map, StateT.run_map, relabels store]
  cases StateT.run procedure store <;> rfl

/-- What is asked of the store is given on the store with other types and
values as well. -/
theorem getBind {next : Store Types Values → StateT (Store Types Values) Option α}
    {next' : Store Types' Values' → StateT (Store Types' Values') Option α}
    (later : ∀ store, Relabels type value (next store)
      (next' (store.relabel type value))) :
    Relabels type value (MonadState.get >>= next) (MonadState.get >>= next') :=
  fun store => later store store

theorem mapM {one : NodeId → StateT (Store Types Values) Option NodeId}
    {one' : NodeId → StateT (Store Types' Values') Option NodeId}
    (each : ∀ id, Relabels type value (one id) (one' id)) (ids : List NodeId) :
    Relabels type value (ids.mapM one) (ids.mapM one') := by
  induction ids with
  | nil => exact pure []
  | cons id rest induction =>
      simp only [List.mapM_cons]
      exact (each id).bind fun _ => induction.bind fun _ => pure _

end Relabels

theorem relabels_newNode (node : Node Types Values) :
    Relabels type value (make (newNode node))
      (make (newNode (node.relabel type value))) := by
  intro store
  change some ((newNode (node.relabel type value)).run _) =
    some (((newNode node).run store).1, _)
  simp [StateT.run, newNode, relabel]

theorem relabels_newList (list : Named NodeId) :
    Relabels type value (make (newList list)) (make (newList list)) :=
  fun _ => rfl

theorem relabels_cloneList
    {one : NodeId → StateT (Store Types Values) Option NodeId}
    {one' : NodeId → StateT (Store Types' Values') Option NodeId}
    (each : ∀ id, Relabels type value (one id) (one' id)) (id : ListId) :
    Relabels type value (cloneList one id) (cloneList one' id) := by
  apply Relabels.getBind
  intro store
  have same : (store.relabel type value).list? id = store.list? id := rfl
  rw [same]
  cases store.list? id with
  | none => exact .fail
  | some named =>
      simp only [Named.mapM_eq_map]
      exact ((Relabels.mapM each _).map _).bind fun copy =>
        relabels_newList copy

theorem relabels_cloneNode (length : Nat) (id : NodeId) :
    Relabels type value (cloneNode length id) (cloneNode length id) := by
  induction length generalizing id with
  | zero => exact .fail
  | succ length induction =>
      apply Relabels.getBind
      intro store
      rw [node?_relabel]
      cases store.node? id with
      | none => exact .fail
      | some node =>
          cases node with
          | constant | call | parameter | temporary =>
              exact relabels_newNode _
          | directCall held tag list =>
              exact (relabels_cloneList induction list).bind fun copy =>
                relabels_newNode (.directCall held tag copy)

theorem relabels_clone (source : Handle) :
    Relabels type value (clone source) (clone source) := by
  cases source with
  | node id =>
      apply Relabels.getBind
      intro store
      rw [size_nodes_relabel]
      exact (relabels_cloneNode _ id).map _
  | list id =>
      apply Relabels.getBind
      intro store
      rw [size_nodes_relabel]
      exact (relabels_cloneList (relabels_cloneNode _) id).map _
  | note | block | table => exact .fail

variable (type value) in
/-- Cloning does the same whatever types and values are. -/
theorem clone?_relabel (store : Store Types Values) (source : Handle) :
    (store.relabel type value).clone? source =
      (store.clone? source).map
        fun done => (done.1, done.2.relabel type value) :=
  relabels_clone source store

end Naturality

section Trees

variable {store store' : Store} {handle handle' : Handle} {tree : Tree}

/-- Objects with one tree have parts with one tree at every place. -/
theorem exists_path_of_sameTree (consistent : store.Consistent)
    (consistent' : store'.Consistent)
    (unfolds : store.unfolding? handle = some tree)
    (unfolds' : store'.unfolding? handle' = some tree) {path : List Nat}
    {part' : Handle} (way : store'.Path handle' path part') :
    ∃ part inner, store.Path handle path part ∧
      store.unfolding? part = some inner ∧
      store'.unfolding? part' = some inner := by
  induction way generalizing handle tree with
  | here => exact ⟨handle, tree, .here _, unfolds, unfolds'⟩
  | @down owner child part' index rest taken _ induction =>
      obtain ⟨object, there, trees, parts, assembles⟩ :=
        (unfolding?_eq_some_iff_assembles consistent).mp unfolds
      obtain ⟨object', there', trees', parts', assembles'⟩ :=
        (unfolding?_eq_some_iff_assembles consistent').mp unfolds'
      rw [assembles.trees_eq] at parts
      rw [assembles'.trees_eq] at parts'
      rw [children_of_object?_eq_some there'] at taken
      have found' : (tree.children.map some)[index]? =
          some (store'.unfolding? child) := by
        rw [← parts', List.getElem?_map, taken, Option.map_some]
      have found := found'
      rw [← parts, List.getElem?_map, Option.map_eq_some_iff] at found
      obtain ⟨child₀, taken₀, same⟩ := found
      rw [List.getElem?_map, Option.map_eq_some_iff] at found'
      obtain ⟨inner, -, unfoldsChild'⟩ := found'
      obtain ⟨part, inner, below, unfoldsPart, unfoldsPart'⟩ :=
        induction (same.trans unfoldsChild'.symm) unfoldsChild'.symm
      rw [← children_of_object?_eq_some there] at taken₀
      exact ⟨part, inner, .down taken₀ below, unfoldsPart, unfoldsPart'⟩

/-- The type and the value of an expression can be read off its tree. -/
theorem exists_leaf_of_unfolding? {id : NodeId}
    (unfolds : store.unfolding? (.node id) = some tree) :
    ∃ node expression, store.node? id = some node ∧
      .expression expression = tree ∧ expression.type = node.type ∧
      expression.value? = node.value? := by
  obtain ⟨expression, found, same⟩ := Option.map_eq_some_iff.mp unfolds
  obtain ⟨node, there, expanded⟩ := unfoldNode?_size_eq_some_iff.mp found
  exact ⟨node, expression, there, same, Node.expand?_type expanded,
    Node.expand?_value? expanded⟩

end Trees

section Separation

variable {α β : Type}

/-- Two things are the same if no labels tell them apart. -/
theorem eq_of_forall_label [Nontrivial β] {first second : α}
    (same : ∀ label : α → β, label first = label second) : first = second := by
  classical
  obtain ⟨this, other, different⟩ := exists_pair_ne β
  by_contra distinct
  have told := same fun candidate => if candidate = first then this else other
  simp only [if_pos, if_neg (Ne.symm distinct)] at told
  exact different told

theorem option_eq_of_forall_label [Nontrivial β] {first second : Option α}
    (same : ∀ label : α → β, first.map label = second.map label) :
    first = second := by
  obtain ⟨label⟩ : Nonempty (α → β) := inferInstance
  cases first with
  | none =>
      cases second with
      | none => rfl
      | some => cases same label
  | some =>
      cases second with
      | none => cases same label
      | some =>
          exact congrArg some
            (eq_of_forall_label fun label => Option.some.inj (same label))

instance : Nontrivial ValueType :=
  ⟨.basic .bool, .basic .int, by decide⟩

instance : Nontrivial Value :=
  ⟨.basic (.bool true), .basic (.bool false), by decide⟩

end Separation

theorem exists_node_of_has {store : Store Types Values} {id : NodeId}
    (has : store.Has (.node id)) : ∃ node, store.node? id = some node := by
  rw [Has, object?, Option.isSome_map] at has
  exact Option.isSome_iff_exists.mp has

section Clones

variable {store changed : Store Types Values} {source copy : Handle}

/-- However types and values are labelled, the labels in a clone are those of
the original. -/
theorem exists_labels_eq (consistent : store.Consistent)
    (closed : store.Closed) (cloned : store.clone? source = some (copy, changed))
    (type : Types → ValueType) (value : Values → Value) {path : List Nat}
    {id' : NodeId} (way : changed.Path copy path (.node id')) :
    ∃ id node node', store.Path source path (.node id) ∧
      store.node? id = some node ∧ changed.node? id' = some node' ∧
      type node'.type = type node.type ∧
      node'.value?.map value = node.value?.map value := by
  have labelled := clone?_relabel type value store source
  rw [cloned, Option.map_some] at labelled
  have isClone := IsClone.ofClone? labelled
  have closedOld := (closed_relabel_iff type value store).mpr closed
  have consistentNew := isClone.adds.consistent
    ((consistent_relabel_iff type value store).mpr consistent)
  obtain ⟨tree, unfolds, unfoldsCopy⟩ := isClone.sameTree
  obtain ⟨part, inner, below, unfoldsPart, unfoldsPart'⟩ :=
    exists_path_of_sameTree consistentNew consistentNew unfolds unfoldsCopy
      ((path_relabel_iff type value changed).mpr way)
  -- what is below the original was there before it was cloned
  have known : ∀ {path : List Nat} {part : Handle},
      (store.relabel type value).Path source path part →
        (store.relabel type value).Has part :=
    fun way => closedOld.has_of_reaches
      (reaches_iff_exists_path.mpr ⟨_, way⟩) (has_of_clone? labelled)
  have belowOld := below.of_growsTo isClone.adds.grows known
  have form := (form_of_unfolding?_eq_some unfoldsPart).symm.trans
    (form_of_unfolding?_eq_some unfoldsPart')
  cases part with
  | list | note | block | table => cases form
  | node id =>
      obtain ⟨labelledNode, there⟩ := exists_node_of_has (known belowOld)
      have thereNew := isClone.adds.grows.nodes there
      rw [node?_relabel, Option.map_eq_some_iff] at there
      obtain ⟨node, found, rfl⟩ := there
      obtain ⟨_, expression, again, rfl, sameType, sameValue⟩ :=
        exists_leaf_of_unfolding? unfoldsPart
      cases thereNew.symm.trans again
      obtain ⟨_, expression', there', same, sameType', sameValue'⟩ :=
        exists_leaf_of_unfolding? unfoldsPart'
      cases same
      rw [node?_relabel, Option.map_eq_some_iff] at there'
      obtain ⟨node', found', rfl⟩ := there'
      rw [sameType, Node.type_relabel, Node.type_relabel] at sameType'
      rw [sameValue, Node.value?_relabel, Node.value?_relabel] at sameValue'
      exact ⟨id, node, node', (path_relabel_iff type value store).mp belowOld,
        found, found', sameType'.symm, sameValue'.symm⟩

/-- A clone holds the very types and values that its original holds, whatever
they are. -/
theorem holdsAs_of_clone? (consistent : store.Consistent)
    (closed : store.Closed)
    (cloned : store.clone? source = some (copy, changed)) :
    changed.HoldsAs copy store source := by
  intro path id' way
  have labels := fun type value =>
    exists_labels_eq consistent closed cloned type value way
  obtain ⟨id, node, node', below, found, found', -, -⟩ :=
    labels (fun _ => .basic .bool) (fun _ => .basic (.bool true))
  have same : ∀ (type : Types → ValueType) (value : Values → Value),
      type node'.type = type node.type ∧
        node'.value?.map value = node.value?.map value := by
    intro type value
    obtain ⟨_, _, _, below', again, again', sameType, sameValue⟩ :=
      labels type value
    cases below'.unique below
    cases again.symm.trans found
    cases again'.symm.trans found'
    exact ⟨sameType, sameValue⟩
  exact ⟨id, node, node', below, found, found',
    eq_of_forall_label fun type => (same type fun _ => .basic (.bool true)).1,
    option_eq_of_forall_label fun value => (same (fun _ => .basic .bool) value).2⟩

/-- A store of references is cloned as the store of what they refer to. -/
theorem exists_clone?_of_relabel {references : Store Types Values}
    {type : Types → ValueType} {value : Values → Value} {changed : Store}
    (cloned : (references.relabel type value).clone? source =
      some (copy, changed)) :
    ∃ referring, references.clone? source = some (copy, referring) ∧
      referring.relabel type value = changed := by
  rw [clone?_relabel, Option.map_eq_some_iff] at cloned
  obtain ⟨⟨_, referring⟩, found, same⟩ := cloned
  cases same
  exact ⟨referring, found, rfl⟩

end Clones

end Store

end MaterialGraph
