import MaterialGraph.Proofs.Expression.Order
import MaterialGraph.Proofs.Store.Change
import MaterialGraph.Store.Query

/-!
# Comparing shared objects compares their trees

The comparison in a store stops at identical objects and does not look at what
they hold.  For objects that have trees this makes no difference, at whatever
depth it happens: the result is that of comparing the trees.
-/

namespace MaterialGraph

namespace Store

theorem expandList?_unique {store : Store} {length length' : Nat} {id : ListId}
    {arguments arguments' : Arguments}
    (found : store.expandList? (store.unfoldNode? length) id = some arguments)
    (found' : store.expandList? (store.unfoldNode? length') id =
      some arguments') :
    arguments = arguments' := by
  have longer := (GrowsTo.refl store).expandList?
    (unfoldNode?_extendedBy (Nat.le_max_left length length')) found
  have longer' := (GrowsTo.refl store).expandList?
    (unfoldNode?_extendedBy (Nat.le_max_right length length')) found'
  exact Option.some.inj (longer.symm.trans longer')

theorem size_eq_length {α β : Type} {named : Named α} {change : α → Option β}
    {entries : List (String × β)} (consistent : named.Consistent)
    (changed : mapEntries? change named.toList = some entries) :
    named.size = entries.length := by
  have sameLength := congrArg List.length (names_mapEntries? changed)
  rw [List.length_map, List.length_map, consistent.length_toList] at sameLength
  exact sameLength

theorem compareEntries?_eq {compareNodes? : NodeId → NodeId → Option Ordering}
    {node? node'? : NodeId → Option Expression}
    (agrees : ∀ {left right : NodeId} {root root' : Expression},
      node? left = some root → node'? right = some root' →
        compareNodes? left right = some (root.compare root'))
    {entries entries' : List (String × NodeId)}
    {arguments arguments' : Arguments}
    (expanded : mapEntries? node? entries = some arguments)
    (expanded' : mapEntries? node'? entries' = some arguments') :
    compareEntries? compareNodes? entries entries' =
      some (Expression.compareEntries arguments arguments') := by
  induction entries generalizing entries' arguments arguments' with
  | nil =>
      cases expanded
      simp only [compareEntries?, Expression.compareEntries]
  | cons entry rest induction =>
      obtain ⟨name, child⟩ := entry
      obtain ⟨root, foundChild, others, foundOthers, rfl⟩ :=
        mapEntries?_cons_eq_some_iff.mp expanded
      cases entries' with
      | nil =>
          cases expanded'
          simp only [compareEntries?, Expression.compareEntries]
      | cons entry' rest' =>
          obtain ⟨name', child'⟩ := entry'
          obtain ⟨root', foundChild', others', foundOthers', rfl⟩ :=
            mapEntries?_cons_eq_some_iff.mp expanded'
          simp only [compareEntries?, Expression.compareEntries]
          cases Ord.compare name name' with
          | lt | gt => rfl
          | eq =>
              rw [agrees foundChild foundChild']
              simp only [Option.bind_eq_bind, Option.bind_some, Ordering.then]
              cases root.compare root' with
              | lt | gt => rfl
              | eq => exact induction foundOthers foundOthers'

theorem compareLists?_eq {store : Store} (consistent : store.Consistent)
    {compareNodes? : NodeId → NodeId → Option Ordering} {length length' : Nat}
    (agrees : ∀ {left right : NodeId} {root root' : Expression},
      store.unfoldNode? length left = some root →
        store.unfoldNode? length' right = some root' →
          compareNodes? left right = some (root.compare root'))
    {left right : ListId} {arguments arguments' : Arguments}
    (expanded : store.expandList? (store.unfoldNode? length) left =
      some arguments)
    (expanded' : store.expandList? (store.unfoldNode? length') right =
      some arguments') :
    store.compareLists? compareNodes? left right =
      some (Arguments.compare arguments arguments') := by
  unfold compareLists?
  split
  · -- lists are compared by identity first, and one list has one tree
    rename_i identical
    subst identical
    rw [expandList?_unique expanded expanded', Arguments.compare_self]
  · obtain ⟨list, found, entries⟩ := expandList?_eq_some_iff.mp expanded
    obtain ⟨list', found', entries'⟩ := expandList?_eq_some_iff.mp expanded'
    simp only [found, found', Option.bind_eq_bind, Option.bind_some,
      Arguments.compare, size_eq_length (consistent.lists found) entries,
      size_eq_length (consistent.lists found') entries']
    cases Ord.compare arguments.length arguments'.length with
    | lt | gt => rfl
    | eq => exact compareEntries?_eq agrees entries entries'

theorem comparePayloads?_eq {compareLists? : ListId → ListId → Option Ordering}
    {list? list'? : ListId → Option Arguments}
    (agrees : ∀ {left right : ListId} {arguments arguments' : Arguments},
      list? left = some arguments → list'? right = some arguments' →
        compareLists? left right =
          some (Arguments.compare arguments arguments'))
    {node node' : Node} {root root' : Expression}
    (expanded : node.expand? list? = some root)
    (expanded' : node'.expand? list'? = some root') :
    comparePayloads? compareLists? node node' =
      some (root.comparePayloads root') := by
  cases node with
  | constant | call | parameter | temporary =>
      cases expanded
      cases node' with
      | constant | call | parameter | temporary =>
          cases expanded'
          rfl
      | directCall type' tag' list' =>
          obtain ⟨arguments', -, rfl⟩ :=
            Node.expand?_directCall_eq_some_iff.mp expanded'
          rfl
  | directCall type tag list =>
      obtain ⟨arguments, foundList, rfl⟩ :=
        Node.expand?_directCall_eq_some_iff.mp expanded
      cases node' with
      | constant | call | parameter | temporary =>
          cases expanded'
          rfl
      | directCall type' tag' list' =>
          obtain ⟨arguments', foundList', rfl⟩ :=
            Node.expand?_directCall_eq_some_iff.mp expanded'
          simp only [comparePayloads?, Expression.comparePayloads]
          cases Ord.compare tag tag' with
          | lt | gt => rfl
          | eq => exact agrees foundList foundList'

theorem compareNodesWithin?_eq {store : Store} (consistent : store.Consistent)
    {length length' : Nat} {left right : NodeId} {root root' : Expression}
    (unfolds : store.unfoldNode? length left = some root)
    (unfolds' : store.unfoldNode? length' right = some root') :
    store.compareNodesWithin? length left right =
      some (root.compare root') := by
  induction length generalizing length' left right root root' with
  | zero => cases unfolds
  | succ length induction =>
      unfold compareNodesWithin?
      split
      · -- the two searches need not have had the same room
        rename_i identical
        subst identical
        rw [unfoldNode?_unique unfolds unfolds', Expression.compare_self]
      · cases length' with
        | zero => cases unfolds'
        | succ length' =>
            obtain ⟨node, found, expanded⟩ :=
              unfoldNode?_succ_eq_some_iff.mp unfolds
            obtain ⟨node', found', expanded'⟩ :=
              unfoldNode?_succ_eq_some_iff.mp unfolds'
            have payloads := comparePayloads?_eq
              (compareLists?_eq consistent fun unfolds unfolds' =>
                induction unfolds unfolds') expanded expanded'
            simp only [found, found', Option.bind_eq_bind, Option.bind_some,
              Expression.compare_eq_then, Node.expand?_kind expanded,
              Node.expand?_kind expanded', Node.expand?_type expanded,
              Node.expand?_type expanded', ← Ordering.then_assoc]
            cases (Ord.compare node.kind node'.kind).then
              (Ord.compare node.type node'.type) with
            | lt | gt => rfl
            | eq => exact payloads

/-- Two objects with trees of a form that is ordered compare as the trees do. -/
theorem compare_eq_ok {store : Store} (consistent : store.Consistent)
    {left right : Handle} {tree tree' : Tree} {order : Ordering}
    (unfolds : store.unfolding? left = some tree)
    (unfolds' : store.unfolding? right = some tree')
    (ordered : tree.compare? tree' = some order) :
    store.compare left right = .ok order := by
  cases left with
  | node left =>
      obtain ⟨root, found, rfl⟩ := Option.map_eq_some_iff.mp unfolds
      cases right with
      | node right =>
          obtain ⟨root', found', rfl⟩ := Option.map_eq_some_iff.mp unfolds'
          cases ordered
          exact require_eq_ok_iff.mpr
            (compareNodesWithin?_eq consistent found found')
      | list | note | block | table =>
          obtain ⟨_, -, rfl⟩ := Option.map_eq_some_iff.mp unfolds'
          cases ordered
  | list left =>
      obtain ⟨entries, found, rfl⟩ := Option.map_eq_some_iff.mp unfolds
      cases right with
      | list right =>
          obtain ⟨entries', found', rfl⟩ := Option.map_eq_some_iff.mp unfolds'
          cases ordered
          refine require_eq_ok_iff.mpr
            (compareLists?_eq consistent ?_ found found')
          exact fun unfolds unfolds' =>
            compareNodesWithin?_eq consistent unfolds unfolds'
      | node | note | block | table =>
          obtain ⟨_, -, rfl⟩ := Option.map_eq_some_iff.mp unfolds'
          cases ordered
  | note | block | table =>
      obtain ⟨_, -, rfl⟩ := Option.map_eq_some_iff.mp unfolds
      cases ordered

/-- Comparing is a total order on objects without cycles.  Only transitivity
needs that the types and values are basic. -/
theorem compare_total_order (operations : List Operation) {form : Form}
    (ordered : form.IsOrdered) {low middle high : Handle}
    {lowTree middleTree highTree : Tree}
    (lowUnfolds : (run {} operations).unfolding? low = some lowTree)
    (middleUnfolds : (run {} operations).unfolding? middle = some middleTree)
    (highUnfolds : (run {} operations).unfolding? high = some highTree)
    (lowForm : lowTree.form = form) (middleForm : middleTree.form = form)
    (highForm : highTree.form = form) :
    ∃ first second whole,
      (run {} operations).compare low middle = .ok first ∧
      (run {} operations).compare middle high = .ok second ∧
      (run {} operations).compare low high = .ok whole ∧
      (run {} operations).compare low low = .ok .eq ∧
      (run {} operations).compare middle low = .ok first.swap ∧
      (lowTree.IsBasic → middleTree.IsBasic → highTree.IsBasic →
        Composes first second whole) := by
  have consistent := consistent_run operations
  have lowOrdered : lowTree.form.IsOrdered := lowForm ▸ ordered
  have middleOrdered : middleTree.form.IsOrdered := middleForm ▸ ordered
  obtain ⟨first, compared⟩ :=
    Tree.exists_compare? lowOrdered (lowForm.trans middleForm.symm)
  obtain ⟨second, compared'⟩ :=
    Tree.exists_compare? middleOrdered (middleForm.trans highForm.symm)
  obtain ⟨whole, compared''⟩ :=
    Tree.exists_compare? lowOrdered (lowForm.trans highForm.symm)
  refine ⟨first, second, whole, ?_, ?_, ?_, ?_, ?_, ?_⟩
  · exact compare_eq_ok consistent lowUnfolds middleUnfolds compared
  · exact compare_eq_ok consistent middleUnfolds highUnfolds compared'
  · exact compare_eq_ok consistent lowUnfolds highUnfolds compared''
  · exact compare_eq_ok consistent lowUnfolds lowUnfolds
      (lowTree.compare?_self lowOrdered)
  · exact compare_eq_ok consistent middleUnfolds lowUnfolds
      (Tree.compare?_swap compared)
  · intro lowKnown middleKnown highKnown
    exact Tree.compare?_composes lowKnown middleKnown highKnown compared
      compared' compared''

/-- A NaN, a negative zero, and a constant whose value is not of its type. -/
def mixedConstants : List Operation :=
  [.newConstant (.basic (.float ⟨0x7fc00001⟩)),
    .newConstant (.basic (.float ⟨0x80000000⟩)),
    .newConstant (.basic (.float ⟨0⟩)),
    .setValue (.node ⟨2⟩) (.basic (.int 1))]

theorem compare_total_order_mixedConstants :
    ∃ first second whole,
      (run {} mixedConstants).compare (.node ⟨0⟩) (.node ⟨1⟩) = .ok first ∧
      (run {} mixedConstants).compare (.node ⟨1⟩) (.node ⟨2⟩) = .ok second ∧
      (run {} mixedConstants).compare (.node ⟨0⟩) (.node ⟨2⟩) = .ok whole ∧
      (run {} mixedConstants).compare (.node ⟨1⟩) (.node ⟨0⟩) = .ok first.swap ∧
      Composes first second whole := by
  have low : (run {} mixedConstants).unfolding? (.node ⟨0⟩) =
      some (.expression
        (.constant (.basic .float) (.basic (.float ⟨0x7fc00001⟩)))) := rfl
  have middle : (run {} mixedConstants).unfolding? (.node ⟨1⟩) =
      some (.expression
        (.constant (.basic .float) (.basic (.float ⟨0x80000000⟩)))) := rfl
  have high : (run {} mixedConstants).unfolding? (.node ⟨2⟩) =
      some (.expression (.constant (.basic .float) (.basic (.int 1)))) := rfl
  have ordered : Form.expression.IsOrdered := trivial
  obtain ⟨first, second, whole, compared, compared', compared'', -, swapped,
    composes⟩ :=
    compare_total_order mixedConstants ordered low middle high rfl rfl rfl
  refine ⟨first, second, whole, compared, compared', compared'', swapped, ?_⟩
  refine composes ?_ ?_ ?_ <;>
    simp [Tree.IsBasic, Tree.parts, Expression.parts, Part.IsBasic,
      ValueType.IsBasic, Value.IsBasic]

end Store

end MaterialGraph
