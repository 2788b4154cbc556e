import MaterialGraph.Proofs.Expression.Context
import MaterialGraph.Proofs.Store.Cycles
import Mathlib.Data.Set.Card

/-!
# Comparing objects that agree around a place

Two direct calls, or two lists, that differ in one place only compare as what
they have there, however deep the place is.  What stands beside the place has
to be the same object on both sides or to have the same tree.  Shared objects
may therefore have cycles, as the comparison does not look into them.
-/

namespace MaterialGraph

namespace Named

variable {α : Type} {named edited : Named α} {child : α}

theorem Consistent.ofSet {index : Nat}
    (replaced : named.set index child = .ok edited)
    (consistent : edited.Consistent) : named.Consistent := by
  obtain ⟨inRange, rfl⟩ := set_eq_ok_iff.mp replaced
  exact ⟨consistent.size_eq.trans (Array.size_set inRange),
    consistent.position_iff⟩

theorem toList_set {index : Nat}
    (replaced : named.set index child = .ok edited)
    (consistent : edited.Consistent) :
    ∃ inside : index < named.toList.length,
      edited.toList = named.toList.take index ++
        ((named.toList[index]).1, child) :: named.toList.drop (index + 1) := by
  obtain ⟨inRange, -⟩ := set_eq_ok_iff.mp replaced
  obtain ⟨edited', replaced', entries⟩ := exists_set_of_lt child inRange
  cases replaced.symm.trans replaced'
  have inside : index < named.toList.length := by
    rwa [(consistent.ofSet replaced).length_toList]
  refine ⟨inside, ?_⟩
  rw [entries, List.modify_eq_take_cons_drop inside]

theorem indexOf?_eq_of_names {named' : Named α}
    (consistent : named.Consistent) (consistent' : named'.Consistent)
    (sameNames : named.toList.map Prod.fst = named'.toList.map Prod.fst)
    (name : String) : named.indexOf? name = named'.indexOf? name := by
  have byNames := congrArg (List.findIdx? (· == name)) sameNames
  rw [List.findIdx?_map, List.findIdx?_map] at byNames
  rw [consistent.indexOf?_eq, consistent'.indexOf?_eq]
  exact byNames

end Named

namespace Store

section Reached

variable {store : Store} {id child : NodeId}

/-- An expression and those below it. -/
def reached (store : Store) (id : NodeId) : Set NodeId :=
  {part | store.Has (.node part) ∧ store.Reaches (.node id) (.node part)}

theorem reached_subset_image :
    store.reached id ⊆ NodeId.mk '' Finset.range store.nodes.size := by
  rintro ⟨index⟩ ⟨has, -⟩
  have inRange : index < store.nodes.size := by
    simpa [Has, object?, node?] using has
  exact ⟨index, Finset.mem_coe.mpr (Finset.mem_range.mpr inRange), rfl⟩

theorem finite_reached : (store.reached id).Finite :=
  ((Finset.finite_toSet _).image _).subset reached_subset_image

theorem ncard_reached_le_size : (store.reached id).ncard ≤ store.nodes.size := by
  have finite := Finset.finite_toSet (Finset.range store.nodes.size)
  calc (store.reached id).ncard
      ≤ (NodeId.mk '' Finset.range store.nodes.size).ncard :=
        Set.ncard_le_ncard reached_subset_image (finite.image _)
    _ ≤ (Finset.range store.nodes.size : Set Nat).ncard :=
        Set.ncard_image_le finite
    _ = store.nodes.size := by rw [Set.ncard_coe_finset, Finset.card_range]

/-- Below an expression that does not hold itself fewer can be reached. -/
theorem ncard_reached_lt
    (below : Relation.TransGen store.Owns (.node id) (.node child))
    (apart : ¬Relation.TransGen store.Owns (.node id) (.node id)) :
    (store.reached child).ncard < (store.reached id).ncard := by
  apply Set.ncard_lt_ncard _ finite_reached
  rw [Set.ssubset_iff_of_subset]
  · obtain ⟨list, owns, -⟩ := Relation.TransGen.head'_iff.mp below
    refine ⟨id, ⟨has_of_owns owns, .refl⟩, fun member => ?_⟩
    exact apart (below.trans_left member.2)
  · intro part member
    exact ⟨member.1, below.to_reflTransGen.trans member.2⟩

theorem transGen_owns_argument {type : ValueType} {tag : Tag} {list : ListId}
    {named : Named NodeId} {entry : String × NodeId}
    (call : store.node? id = some (.directCall type tag list))
    (arguments : store.list? list = some named)
    (member : entry ∈ named.toList) :
    Relation.TransGen store.Owns (.node id) (.node entry.2) := by
  have callOwns : store.Owns (.node id) (.list list) := by
    rw [Owns, children_of_object?_eq_some (object?_node_eq_some_iff.mpr call)]
    exact List.mem_singleton_self _
  have listOwns : store.Owns (.list list) (.node entry.2) := by
    rw [Owns,
      children_of_object?_eq_some (object?_list_eq_some_iff.mpr arguments)]
    exact List.mem_map_of_mem (List.of_mem_zip member).2
  exact .head callOwns (.single listOwns)

theorem not_transGen_owns_self (consistent : store.Consistent) {length : Nat}
    (unfolds : (store.unfoldNode? length id).isSome) :
    ¬Relation.TransGen store.Owns (.node id) (.node id) := by
  obtain ⟨root, found⟩ := Option.isSome_iff_exists.mp unfolds
  have unfolds : store.unfolding? (.node id) = some (.expression root) :=
    unfolding?_eq_some_iff.mpr ⟨length, by simp [expand?, found]⟩
  exact acyclicFrom_of_unfolding?_eq_some consistent unfolds _ .refl

/-- Room for all expressions that can be reached is enough to find a tree. -/
theorem isSome_unfoldNode?_of_ncard_le (consistent : store.Consistent)
    {length room : Nat} (unfolds : (store.unfoldNode? length id).isSome)
    (enough : (store.reached id).ncard ≤ room) :
    (store.unfoldNode? room id).isSome := by
  induction length generalizing id room with
  | zero => cases unfolds
  | succ length induction =>
      have apart := not_transGen_owns_self consistent unfolds
      obtain ⟨root, found⟩ := Option.isSome_iff_exists.mp unfolds
      obtain ⟨node, there, expanded⟩ := unfoldNode?_succ_eq_some_iff.mp found
      have present : id ∈ store.reached id :=
        ⟨has_of_object?_eq_some (object?_node_eq_some_iff.mpr there), .refl⟩
      have positive := (Set.ncard_pos finite_reached).mpr ⟨id, present⟩
      obtain ⟨room, rfl⟩ := Nat.exists_eq_succ_of_ne_zero
        (Nat.ne_of_gt (positive.trans_le enough))
      cases node with
      | constant | call | parameter | temporary =>
          simp [Store.unfoldNode?, there, Node.expand?]
      | directCall type tag list =>
          obtain ⟨arguments, unfoldsList, -⟩ :=
            Node.expand?_directCall_eq_some_iff.mp expanded
          obtain ⟨named, foundList, entries⟩ :=
            expandList?_eq_some_iff.mp unfoldsList
          have allUnfold :=
            isSome_mapEntries?.mp (Option.isSome_of_eq_some entries)
          have allUnfold' : ∀ entry ∈ named.toList,
              (store.unfoldNode? room entry.2).isSome := by
            intro entry member
            have below := transGen_owns_argument there foundList member
            refine induction (allUnfold entry member) ?_
            exact Nat.le_of_lt_succ ((ncard_reached_lt below apart).trans_le enough)
          obtain ⟨arguments', entries'⟩ :=
            Option.isSome_iff_exists.mp (isSome_mapEntries?.mpr allUnfold')
          refine Option.isSome_iff_exists.mpr ⟨_, unfoldNode?_succ_eq_some_iff.mpr
            ⟨_, there, Node.expand?_directCall_eq_some_iff.mpr ⟨arguments',
              expandList?_eq_some_iff.mpr ⟨named, foundList, entries'⟩, rfl⟩⟩⟩

theorem unfoldNode?_of_ncard_le (consistent : store.Consistent)
    {length room : Nat} {root : Expression}
    (unfolds : store.unfoldNode? length id = some root)
    (enough : (store.reached id).ncard ≤ room) :
    store.unfoldNode? room id = some root := by
  obtain ⟨root', unfolds'⟩ := Option.isSome_iff_exists.mp
    (isSome_unfoldNode?_of_ncard_le consistent
      (Option.isSome_of_eq_some unfolds) enough)
  rw [unfolds', unfoldNode?_unique unfolds' unfolds]

end Reached

section Around

variable (store : Store)

/-- One expression, or two with one tree, under one name. -/
def Alike (entry entry' : String × NodeId) : Prop :=
  entry.1 = entry'.1 ∧
    (entry.2 = entry'.2 ∨
      ∃ tree, store.unfolding? (.node entry.2) = some tree ∧
        store.unfolding? (.node entry'.2) = some tree)

/-- Entries that are alike but for one place, which has one expression on the
left and another on the right. -/
def AlikeAround (left right : NodeId) (entries entries' : List (String × NodeId)) :
    Prop :=
  ∃ before before' name after after',
    entries = before ++ (name, left) :: after ∧
      entries' = before' ++ (name, right) :: after' ∧
        List.Forall₂ store.Alike before before' ∧
          List.Forall₂ store.Alike after after'

/-- The places of two expressions in direct calls that are alike around them.
No call on the way to the place holds itself. -/
inductive InContext (left right : NodeId) : NodeId → NodeId → Prop
  | hole : InContext left right left right
  | directCall {type : ValueType} {tag : Tag} {list list' : ListId}
      {named named' : Named NodeId} {whole whole' inner inner' : NodeId}
      (call : store.node? whole = some (.directCall type tag list))
      (call' : store.node? whole' = some (.directCall type tag list'))
      (arguments : store.list? list = some named)
      (arguments' : store.list? list' = some named')
      (around : store.AlikeAround inner inner' named.toList named'.toList)
      (apart : ¬Relation.TransGen store.Owns (.node whole) (.node whole))
      (inside : InContext left right inner inner') :
      InContext left right whole whole'

end Around

section Compare

variable {store : Store} {left right : NodeId}

theorem Alike.refl (entry : String × NodeId) : store.Alike entry entry :=
  ⟨rfl, .inl rfl⟩

theorem names_eq_of_alike {entries entries' : List (String × NodeId)}
    (alike : List.Forall₂ store.Alike entries entries') :
    entries.map Prod.fst = entries'.map Prod.fst := by
  induction alike with
  | nil => rfl
  | cons first _ induction => rw [List.map_cons, List.map_cons, first.1, induction]

theorem AlikeAround.ofSet {held held' named named' : Named NodeId} {index : Nat}
    (alike : List.Forall₂ store.Alike held.toList held'.toList)
    (consistent : named.Consistent) (consistent' : named'.Consistent)
    (replaced : held.set index left = .ok named)
    (replaced' : held'.set index right = .ok named') :
    store.AlikeAround left right named.toList named'.toList := by
  obtain ⟨inside, entries⟩ := Named.toList_set replaced consistent
  obtain ⟨inside', entries'⟩ := Named.toList_set replaced' consistent'
  have sameName : held.toList[index].1 = held'.toList[index].1 :=
    (alike.get inside inside').1
  refine ⟨_, _, _, _, _, entries, sameName ▸ entries', ?_, ?_⟩
  · exact List.forall₂_take index alike
  · exact List.forall₂_drop (index + 1) alike

/-- Setting a slot of two lists that are alike leaves them alike around it. -/
theorem AlikeAround.ofSetSlot {held held' named named' : Named NodeId}
    {slot : Slot} (alike : List.Forall₂ store.Alike held.toList held'.toList)
    (consistent : named.Consistent) (consistent' : named'.Consistent)
    (replaced : held.setSlot slot left = .ok named)
    (replaced' : held'.setSlot slot right = .ok named') :
    store.AlikeAround left right named.toList named'.toList := by
  cases slot with
  | index index => exact .ofSet alike consistent consistent' replaced replaced'
  | name name =>
      simp only [Named.setSlot, Named.setNamed] at replaced replaced'
      split at replaced
      · rename_i index found
        split at replaced'
        · rename_i index' found'
          rw [Named.indexOf?_eq_of_names (consistent.ofSet replaced)
            (consistent'.ofSet replaced') (names_eq_of_alike alike), found']
            at found
          cases found
          exact .ofSet alike consistent consistent' replaced replaced'
        · cases replaced'
      · cases replaced

theorem compareEntries?_alike
    {compareNodes? : NodeId → NodeId → Option Ordering}
    {entries entries' : List (String × NodeId)}
    (alike : List.Forall₂ store.Alike entries entries')
    (same : ∀ entry ∈ entries, ∀ entry', store.Alike entry entry' →
      compareNodes? entry.2 entry'.2 = some .eq) :
    compareEntries? compareNodes? entries entries' = some .eq := by
  induction alike with
  | nil => rfl
  | @cons entry entry' rest rest' first alike induction =>
      obtain ⟨name, child⟩ := entry
      obtain ⟨name', child'⟩ := entry'
      rw [List.forall_mem_cons] at same
      have equal := same.1 _ first
      obtain ⟨rfl, -⟩ := first
      simp only [compareEntries?, Std.ReflOrd.compare_self, equal,
        Option.bind_eq_bind, Option.bind_some, induction same.2]

theorem compareEntries?_around
    {compareNodes? : NodeId → NodeId → Option Ordering}
    {entries entries' : List (String × NodeId)}
    (around : store.AlikeAround left right entries entries')
    (same : ∀ entry ∈ entries, ∀ entry', store.Alike entry entry' →
      compareNodes? entry.2 entry'.2 = some .eq) :
    compareEntries? compareNodes? entries entries' = compareNodes? left right := by
  obtain ⟨before, before', name, after, after', rfl, rfl, alike, alike'⟩ := around
  induction alike with
  | nil =>
      rw [List.nil_append, List.forall_mem_cons] at same
      simp only [List.nil_append, compareEntries?, Std.ReflOrd.compare_self,
        compareEntries?_alike alike' same.2]
      cases compareNodes? left right with
      | none => rfl
      | some order => cases order <;> rfl
  | @cons entry entry' rest rest' first alike induction =>
      obtain ⟨name', child⟩ := entry
      obtain ⟨name'', child'⟩ := entry'
      rw [List.cons_append, List.forall_mem_cons] at same
      have equal := same.1 _ first
      obtain ⟨rfl, -⟩ := first
      simp only [List.cons_append, compareEntries?, Std.ReflOrd.compare_self,
        equal, Option.bind_eq_bind, Option.bind_some, induction same.2]

theorem AlikeAround.eq_of_eq {entries : List (String × NodeId)}
    (around : store.AlikeAround left right entries entries) : left = right := by
  obtain ⟨before, before', name, after, after', split, split', alike, -⟩ := around
  have same := List.append_inj (split.symm.trans split') alike.length_eq
  injection same.2 with sameEntry
  injection sameEntry

theorem AlikeAround.length_eq {entries entries' : List (String × NodeId)}
    (around : store.AlikeAround left right entries entries') :
    entries.length = entries'.length := by
  obtain ⟨before, before', name, after, after', rfl, rfl, alike, alike'⟩ := around
  simp [alike.length_eq, alike'.length_eq]

theorem AlikeAround.exists_mem {entries entries' : List (String × NodeId)}
    (around : store.AlikeAround left right entries entries') :
    ∃ name, (name, left) ∈ entries := by
  obtain ⟨before, -, name, after, -, rfl, -⟩ := around
  exact ⟨name, by simp⟩

/-- Lists that are alike around a place compare as what they have there. -/
theorem compareLists?_around {compareNodes? : NodeId → NodeId → Option Ordering}
    (consistent : store.Consistent)
    {list list' : ListId} {named named' : Named NodeId}
    (found : store.list? list = some named)
    (found' : store.list? list' = some named')
    (around : store.AlikeAround left right named.toList named'.toList)
    (same : ∀ entry ∈ named.toList, ∀ entry', store.Alike entry entry' →
      compareNodes? entry.2 entry'.2 = some .eq) :
    store.compareLists? compareNodes? list list' = compareNodes? left right := by
  unfold compareLists?
  split
  · rename_i identical
    subst identical
    cases found.symm.trans found'
    obtain rfl := around.eq_of_eq
    obtain ⟨name, member⟩ := around.exists_mem
    exact (same _ member _ (.refl _)).symm
  · have sameSize := around.length_eq
    rw [(consistent.lists found).length_toList,
      (consistent.lists found').length_toList] at sameSize
    simp only [found, found', Option.bind_eq_bind, Option.bind_some, sameSize,
      Std.ReflOrd.compare_self]
    exact compareEntries?_around around same

theorem compareNodesWithin?_self (length : Nat) (id : NodeId) :
    store.compareNodesWithin? length id id = some .eq := by
  cases length <;> simp [compareNodesWithin?]

theorem compareNodesWithin?_alike (consistent : store.Consistent)
    {entry entry' : String × NodeId} (alike : store.Alike entry entry')
    {room : Nat} (enough : (store.reached entry.2).ncard ≤ room) :
    store.compareNodesWithin? room entry.2 entry'.2 = some .eq := by
  rcases alike.2 with identical | ⟨tree, unfolds, unfolds'⟩
  · rw [identical, compareNodesWithin?_self]
  · obtain ⟨root, found, rfl⟩ := Option.map_eq_some_iff.mp unfolds
    obtain ⟨root', found', same⟩ := Option.map_eq_some_iff.mp unfolds'
    cases same
    rw [compareNodesWithin?_eq consistent
      (unfoldNode?_of_ncard_le consistent found enough) found',
      Expression.compare_self]

/-- Expressions that are alike around a place compare as what they have
there. -/
theorem compareNodesWithin?_inContext (consistent : store.Consistent)
    {length length' : Nat} {root root' : Expression}
    (unfolds : store.unfoldNode? length left = some root)
    (unfolds' : store.unfoldNode? length' right = some root')
    {whole whole' : NodeId}
    (inContext : store.InContext left right whole whole')
    {room : Nat} (enough : (store.reached whole).ncard ≤ room) :
    store.compareNodesWithin? room whole whole' = some (root.compare root') := by
  induction inContext generalizing room with
  | hole =>
      exact compareNodesWithin?_eq consistent
        (unfoldNode?_of_ncard_le consistent unfolds enough) unfolds'
  | @directCall type tag list list' named named' whole whole' inner inner'
      call call' arguments arguments' around apart _ induction =>
      have present : whole ∈ store.reached whole :=
        ⟨has_of_object?_eq_some (object?_node_eq_some_iff.mpr call), .refl⟩
      have positive := (Set.ncard_pos finite_reached).mpr ⟨whole, present⟩
      obtain ⟨room, rfl⟩ := Nat.exists_eq_succ_of_ne_zero
        (Nat.ne_of_gt (positive.trans_le enough))
      have enoughBelow : ∀ entry ∈ named.toList,
          (store.reached entry.2).ncard ≤ room := by
        intro entry member
        have below := transGen_owns_argument call arguments member
        exact Nat.le_of_lt_succ ((ncard_reached_lt below apart).trans_le enough)
      obtain ⟨name, member⟩ := around.exists_mem
      have atPlace := induction (enoughBelow _ member)
      unfold compareNodesWithin?
      split
      · rename_i identical
        subst identical
        cases call.symm.trans call'
        cases arguments.symm.trans arguments'
        obtain rfl := around.eq_of_eq
        rw [← atPlace, compareNodesWithin?_self]
      · have lists := compareLists?_around consistent arguments arguments' around
          fun entry member entry' alike =>
            compareNodesWithin?_alike consistent alike (enoughBelow entry member)
        simp only [call, call', Option.bind_eq_bind, Option.bind_some, Node.kind,
          Node.type, Std.ReflOrd.compare_self, Ordering.then_eq,
          comparePayloads?, lists, atPlace]

theorem compare_node_inContext (consistent : store.Consistent)
    {root root' : Expression}
    (unfolds : store.unfolding? (.node left) = some (.expression root))
    (unfolds' : store.unfolding? (.node right) = some (.expression root'))
    {whole whole' : NodeId}
    (inContext : store.InContext left right whole whole') :
    store.compare (.node whole) (.node whole') = .ok (root.compare root') := by
  obtain ⟨_, found, same⟩ := Option.map_eq_some_iff.mp unfolds
  obtain ⟨_, found', same'⟩ := Option.map_eq_some_iff.mp unfolds'
  cases same
  cases same'
  exact require_eq_ok_iff.mpr (compareNodesWithin?_inContext consistent found
    found' inContext ncard_reached_le_size)

/-- No expression of the lists has to have a tree if all but those at the place
are the same objects. -/
theorem compare_list_around (consistent : store.Consistent)
    {list list' : ListId} {named named' : Named NodeId}
    (found : store.list? list = some named)
    (found' : store.list? list' = some named')
    (around : store.AlikeAround left right named.toList named'.toList) :
    store.compare (.list list) (.list list') =
      store.compare (.node left) (.node right) := by
  have lists := compareLists?_around consistent found found' around
    fun _ _ _ alike =>
      compareNodesWithin?_alike consistent alike ncard_reached_le_size
  exact congrArg require lists

end Compare

/-- Comparing is compositional.  Expressions compare as those at one place in
them, if their trees are one context around the place or they are alike there
as objects; so do lists in which one slot was set. -/
theorem compare_compositional (operations : List Operation) :
    (∀ (left right : NodeId) (root root' : Expression),
      (run {} operations).unfolding? (.node left) = some (.expression root) →
      (run {} operations).unfolding? (.node right) =
        some (.expression root') →
        (run {} operations).compare (.node left) (.node right) =
          .ok (root.compare root') ∧
        (∀ (context : Context) (whole whole' : Handle),
          (run {} operations).unfolding? whole =
            some (.expression (context.fill root)) →
          (run {} operations).unfolding? whole' =
            some (.expression (context.fill root')) →
            (run {} operations).compare whole whole' =
              (run {} operations).compare (.node left) (.node right)) ∧
        ∀ whole whole' : NodeId,
          (run {} operations).InContext left right whole whole' →
            (run {} operations).compare (.node whole) (.node whole') =
              (run {} operations).compare (.node left) (.node right)) ∧
    ∀ (held held' named named' : Named NodeId) (slot : Slot)
      (left right : NodeId) (list list' : ListId),
      List.Forall₂ (run {} operations).Alike held.toList held'.toList →
      held.setSlot slot left = .ok named →
      held'.setSlot slot right = .ok named' →
      (run {} operations).list? list = some named →
      (run {} operations).list? list' = some named' →
        (run {} operations).compare (.list list) (.list list') =
          (run {} operations).compare (.node left) (.node right) := by
  have consistent := consistent_run operations
  constructor
  · intro left right root root' unfolds unfolds'
    have compared : (run {} operations).compare (.node left) (.node right) =
        .ok (root.compare root') :=
      compare_eq_ok consistent unfolds unfolds' rfl
    rw [compared]
    refine ⟨rfl, ?_, ?_⟩
    · intro context whole whole' filled filled'
      rw [← context.compare_fill root root']
      exact compare_eq_ok consistent filled filled' rfl
    · intro whole whole' inContext
      exact compare_node_inContext consistent unfolds unfolds' inContext
  · intro held held' named named' slot left right list list' alike replaced
      replaced' found found'
    exact compare_list_around consistent found found' (.ofSetSlot alike
      (consistent.lists found) (consistent.lists found') replaced replaced')

theorem exists_apply_set {store : Store} {id : NodeId} {list : ListId}
    {named : Named NodeId} {node : Node} {index : Nat}
    (there : store.list? list = some named)
    (present : store.node? id = some node) (inRange : index < named.size) :
    ∃ edited, named.set index id = .ok edited ∧
      store.apply (.set (.list list) (.index index) (.node id)) =
        .ok (.list list, store.setList list edited) ∧
      edited.toList = named.toList.modify index fun entry => (entry.1, id) := by
  obtain ⟨edited, replaced, entries⟩ := Named.exists_set_of_lt id inRange
  refine ⟨edited, replaced, ?_, entries⟩
  simp [apply, Store.set, Named.setSlot, require, there, present, replaced,
    liftEdit, bind, Except.bind, pure, Except.pure]

/-- Two constants, and two direct calls without arguments. -/
def emptyCalls : List Operation :=
  [.newConstant (.basic (.int 1)), .newConstant (.basic (.int 2)),
    .newList, .newDirectCall (.basic .material) ⟨7⟩ (.list ⟨0⟩),
    .newList, .newDirectCall (.basic .material) ⟨7⟩ (.list ⟨1⟩)]

/-- The calls get the first constant, which is then replaced in the second. -/
def twinCalls : List Operation :=
  emptyCalls ++
    [.add (.list ⟨0⟩) (some "x") (.node ⟨0⟩),
      .add (.list ⟨1⟩) (some "x") (.node ⟨0⟩),
      .set (.list ⟨0⟩) (.index 0) (.node ⟨0⟩),
      .set (.list ⟨1⟩) (.index 0) (.node ⟨1⟩)]

theorem compare_compositional_twinCalls :
    (run {} twinCalls).compare (.node ⟨0⟩) (.node ⟨1⟩) = .ok .lt ∧
      (run {} twinCalls).compare (.node ⟨2⟩) (.node ⟨3⟩) = .ok .lt ∧
      ((run {} twinCalls).InContext ⟨0⟩ ⟨1⟩ ⟨2⟩ ⟨3⟩ ∧
        (run {} twinCalls).compare (.node ⟨2⟩) (.node ⟨3⟩) =
          (run {} twinCalls).compare (.node ⟨0⟩) (.node ⟨1⟩)) ∧
      (run {} twinCalls).compare (.list ⟨0⟩) (.list ⟨1⟩) = .ok .lt := by
  let one : Node := .constant (.basic .int) (.basic (.int 1))
  let empty := run {} emptyCalls
  have noEntries : empty.list? ⟨0⟩ = some {} := rfl
  obtain ⟨held, added, consistent, entries⟩ := exists_apply_add
    Named.consistent_empty noEntries (rfl : empty.node? ⟨0⟩ = some one)
    (List.not_mem_nil : "x" ∉ [])
  have noEntries' : (empty.setList ⟨0⟩ held).list? ⟨1⟩ = some {} := rfl
  obtain ⟨held', added', consistent', entries'⟩ := exists_apply_add
    Named.consistent_empty noEntries'
    (rfl : (empty.setList ⟨0⟩ held).node? ⟨0⟩ = some one)
    (List.not_mem_nil : "x" ∉ [])
  let filled := (empty.setList ⟨0⟩ held).setList ⟨1⟩ held'
  have inside : 0 < held.size := by simp [← consistent.length_toList, entries]
  have inside' : 0 < held'.size := by
    simp [← consistent'.length_toList, entries']
  have there : filled.list? ⟨0⟩ = some held := rfl
  obtain ⟨named, replaced, written, final⟩ := exists_apply_set there
    (rfl : filled.node? ⟨0⟩ = some one) inside
  have there' : (filled.setList ⟨0⟩ named).list? ⟨1⟩ = some held' := rfl
  obtain ⟨named', replaced', written', final'⟩ := exists_apply_set there'
    (rfl : (filled.setList ⟨0⟩ named).node? ⟨1⟩ =
      some (.constant (.basic .int) (.basic (.int 2)))) inside'
  have ran : run {} twinCalls =
      (filled.setList ⟨0⟩ named).setList ⟨1⟩ named' := by
    rw [twinCalls, run, List.foldl_append]
    change empty.run [_, _, _, _] = _
    rw [run_cons, run_singleton_of_ok added, run_cons,
      run_singleton_of_ok added', run_cons, run_singleton_of_ok written]
    exact run_singleton_of_ok written'
  have list : (run {} twinCalls).list? ⟨0⟩ = some named := by rw [ran]; rfl
  have list' : (run {} twinCalls).list? ⟨1⟩ = some named' := by rw [ran]; rfl
  have call : (run {} twinCalls).node? ⟨2⟩ =
      some (.directCall (.basic .material) ⟨7⟩ ⟨0⟩) := by rw [ran]; rfl
  have call' : (run {} twinCalls).node? ⟨3⟩ =
      some (.directCall (.basic .material) ⟨7⟩ ⟨1⟩) := by rw [ran]; rfl
  have single : named.toList = [("x", ⟨0⟩)] := by
    rw [final, entries]
    rfl
  have single' : named'.toList = [("x", ⟨1⟩)] := by
    rw [final', entries']
    rfl
  have unfolds : (run {} twinCalls).unfolding? (.node ⟨0⟩) =
      some (.expression (.constant (.basic .int) (.basic (.int 1)))) := by
    rw [ran]
    rfl
  have unfolds' : (run {} twinCalls).unfolding? (.node ⟨1⟩) =
      some (.expression (.constant (.basic .int) (.basic (.int 2)))) := by
    rw [ran]
    rfl
  let context : Context := .directCall (.basic .material) ⟨7⟩ [] "x" .hole []
  have filled : (run {} twinCalls).unfolding? (.node ⟨2⟩) =
      some (.expression (context.fill _)) :=
    unfolding?_directCall_of_single call list single unfolds
  have filled' : (run {} twinCalls).unfolding? (.node ⟨3⟩) =
      some (.expression (context.fill _)) :=
    unfolding?_directCall_of_single call' list' single' unfolds'
  obtain ⟨expressions, lists⟩ := compare_compositional twinCalls
  obtain ⟨compared, trees, objects⟩ := expressions _ _ _ _ unfolds unfolds'
  refine ⟨compared, (trees context _ _ filled filled').trans compared, ?_, ?_⟩
  · have around : (run {} twinCalls).AlikeAround ⟨0⟩ ⟨1⟩ named.toList
        named'.toList := ⟨[], [], "x", [], [], single, single', .nil, .nil⟩
    have apart := acyclicFrom_of_unfolding?_eq_some (consistent_run twinCalls)
      filled _ .refl
    have inContext := InContext.directCall call call' list list' around apart
      .hole
    exact ⟨inContext, objects _ _ inContext⟩
  · have alike : List.Forall₂ (run {} twinCalls).Alike held.toList
        held'.toList := by
      rw [entries, entries']
      exact .cons (.refl _) .nil
    exact (lists held held' named named' (.index 0) _ _ _ _ alike replaced
      replaced' list list').trans compared

end Store

end MaterialGraph
