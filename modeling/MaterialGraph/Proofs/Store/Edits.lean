import MaterialGraph.Proofs.Expression.Rewriting
import MaterialGraph.Proofs.Named.Refinement
import MaterialGraph.Proofs.Store.Assembly
import MaterialGraph.Proofs.Store.Change
import Mathlib.Data.Option.Basic
import Mathlib.Data.Prod.Basic

/-!
# What an edit does to the tree of an object

An operation that changes an object replaces one datum of it, or one of its
children, or adds a child.  The same is done to the tree of the object at its
root: the trees of the other children stay what they are.
-/

namespace MaterialGraph

namespace Container.Entries

variable {α β : Type}

/-- The entries with the child in a slot replaced, if there is such a slot. -/
def replace (entries : List (String × α)) (slot : Slot) (child : α) :
    List (String × α) :=
  (set entries slot child).toOption.getD entries

theorem replace_eq {entries edited : List (String × α)} {slot : Slot}
    {child : α} (replaced : set entries slot child = .ok edited) :
    replace entries slot child = edited := by
  rw [replace, replaced]
  rfl

theorem locate_map (change : α → β) (entries : List (String × α))
    (slot : Slot) :
    locate (entries.map (Prod.map id change)) slot = locate entries slot := by
  cases slot with
  | index position => simp [locate]
  | name name => simp [locate, List.findIdx?_map, Function.comp_def]

/-- Where a child is put does not hang on what the children are. -/
theorem set_map (change : α → β) (entries : List (String × α)) (slot : Slot)
    (child : α) :
    set (entries.map (Prod.map id change)) slot (change child) =
      (set entries slot child).map (List.map (Prod.map id change)) := by
  unfold set
  rw [locate_map]
  cases locate entries slot with
  | error reason => rfl
  | ok position =>
      apply congrArg Except.ok
      apply List.ext_getElem?
      intro index
      simp only [List.getElem?_modify, List.getElem?_map]
      by_cases here : position = index
      · cases entries[index]? <;> simp [here]
      · simp [here]

end Container.Entries

namespace Operation

/-- What an operation does to the tree of the object that it changes, given the
tree that it puts into it. -/
def treeEdit (child? : Option Tree) : Operation → TreeEdit
  | setValue _ value => { expression := Expression.withValue value }
  | setCall _ tag =>
      { expression := fun
          | .call type _ => .call type tag
          | other => other }
  | setDefinition _ tag =>
      { expression := fun
          | .directCall type _ arguments => .directCall type tag arguments
          | other => other }
  | setIndex _ index =>
      { expression := fun
          | .parameter type _ => .parameter type index
          | .temporary type _ => .temporary type index
          | other => other }
  | setName _ name =>
      { annotationCall := fun call => { call with name := name } }
  | set _ slot _ =>
      match child? with
      | some (.expression root) =>
          { arguments := fun entries =>
              Container.Entries.replace entries slot root }
      | some (.annotationCall call) =>
          { annotationBlock := fun calls =>
              match slot with
              | .index position => calls.set position call
              | .name _ => calls }
      | some (.annotationBlock calls) =>
          { annotationTable := fun entries =>
              Container.Entries.replace entries slot calls }
      | _ => {}
  | add _ name _ =>
      match child?, name with
      | some (.expression root), some name =>
          { arguments := fun entries => entries ++ [(name, root)] }
      | some (.annotationCall call), _ =>
          { annotationBlock := fun calls => calls ++ [call] }
      | some (.annotationBlock calls), some name =>
          { annotationTable := fun entries => entries ++ [(name, calls)] }
      | _, _ => {}
  | _ => {}

/-- The object that an operation makes of the one that it changes. -/
inductive Edits : Operation → Object → Object → Prop
  | setValue {target : Handle} {type : ValueType} {old : Value}
      (value : Value) :
      Edits (.setValue target value) (.node (.constant type old))
        (.node (.constant type value))
  | setCall {target : Handle} {type : ValueType} {old : Tag} (tag : Tag) :
      Edits (.setCall target tag) (.node (.call type old))
        (.node (.call type tag))
  | setDefinition {target : Handle} {type : ValueType} {old : Tag}
      {list : ListId} (tag : Tag) :
      Edits (.setDefinition target tag) (.node (.directCall type old list))
        (.node (.directCall type tag list))
  | setParameter {target : Handle} {type : ValueType} {old : UInt64}
      (index : UInt64) :
      Edits (.setIndex target index) (.node (.parameter type old))
        (.node (.parameter type index))
  | setTemporary {target : Handle} {type : ValueType} {old : UInt64}
      (index : UInt64) :
      Edits (.setIndex target index) (.node (.temporary type old))
        (.node (.temporary type index))
  | setName {target : Handle} {note : Note} (name : String) :
      Edits (.setName target name) (.note note)
        (.note { note with name := name })
  | setInList {container : Handle} {list edited : Named NodeId} {slot : Slot}
      {child : NodeId} (replaced : list.setSlot slot child = .ok edited) :
      Edits (.set container slot (.node child)) (.list list) (.list edited)
  | setInBlock {container : Handle} {block : Array NoteId} {child : NoteId}
      (position : Nat) (inRange : position < block.size) :
      Edits (.set container (.index position) (.note child)) (.block block)
        (.block (block.set position child inRange))
  | setInTable {container : Handle} {table edited : Named BlockId} {slot : Slot}
      {child : BlockId} (replaced : table.setSlot slot child = .ok edited) :
      Edits (.set container slot (.block child)) (.table table) (.table edited)
  | addToList {container : Handle} {list edited : Named NodeId} {name : String}
      {child : NodeId} (added : list.add name child = .ok edited) :
      Edits (.add container (some name) (.node child)) (.list list)
        (.list edited)
  | addToBlock {container : Handle} {block : Array NoteId} (child : NoteId) :
      Edits (.add container none (.note child)) (.block block)
        (.block (block.push child))
  | addToTable {container : Handle} {table edited : Named BlockId}
      {name : String} {child : BlockId}
      (added : table.add name child = .ok edited) :
      Edits (.add container (some name) (.block child)) (.table table)
        (.table edited)

end Operation

namespace Store

section Inversion

variable {store changed : Store} {target handle : Handle}
  {operation : Operation}

/-- An operation that is carried out makes another object of its target and
leaves all others as they are. -/
structure Applies (store : Store) (operation : Operation) (target : Handle)
    (object edited : Object) (changed : Store) : Prop where
  found : store.object? target = some object
  edits : operation.Edits object edited
  updates : store.Updates target edited changed

theorem exists_applies_of_changeNode {change : Node → Except Refusal Node}
    (result : store.changeNode target change = .ok (handle, changed))
    (edits : ∀ node edited, change node = .ok edited →
      operation.Edits (.node node) (.node edited)) :
    ∃ object edited, store.Applies operation target object edited changed := by
  obtain ⟨id, node, edited, rfl, rfl, found, edit, rfl⟩ :=
    exists_of_changeNode result
  exact ⟨_, _, object?_node_eq_some_iff.mpr found, edits node edited edit,
    updates_setNode store found edited⟩

theorem Replaces.exists_applies {container child : Handle} {slot : Slot}
    (replaces : store.Replaces container slot child changed) :
    ∃ object edited, store.Applies (.set container slot child) container object
      edited changed := by
  cases replaces with
  | list found _ replaced =>
      exact ⟨_, _, object?_list_eq_some_iff.mpr found, .setInList replaced,
        updates_setList store found _⟩
  | block found _ position inRange =>
      exact ⟨_, _, object?_block_eq_some_iff.mpr found, .setInBlock _ _,
        updates_setBlock store found _⟩
  | table found _ replaced =>
      exact ⟨_, _, object?_table_eq_some_iff.mpr found, .setInTable replaced,
        updates_setTable store found _⟩

theorem Appends.exists_applies {container child : Handle} {name : Option String}
    (appends : store.Appends container name child changed) :
    ∃ object edited, store.Applies (.add container name child) container object
      edited changed := by
  cases appends with
  | list found _ added =>
      exact ⟨_, _, object?_list_eq_some_iff.mpr found, .addToList added,
        updates_setList store found _⟩
  | block found =>
      exact ⟨_, _, object?_block_eq_some_iff.mpr found, .addToBlock _,
        updates_setBlock store found _⟩
  | table found _ added =>
      exact ⟨_, _, object?_table_eq_some_iff.mpr found, .addToTable added,
        updates_setTable store found _⟩

/-- What each of the operations that change an object makes of it. -/
theorem exists_applies (mutates : operation.target? = some target)
    (result : store.apply operation = .ok (handle, changed)) :
    ∃ object edited, store.Applies operation target object edited changed := by
  cases operation with
  | newConstant | newCall | newParameter | newTemporary | newDirectCall
  | newList | newNote | newBlock | newTable | place | clone | decode
  | reload => cases mutates
  | setValue _ value =>
      cases mutates
      simp only [apply] at result
      refine exists_applies_of_changeNode result fun node edited edit => ?_
      cases node with
      | constant =>
          cases edit
          exact .setValue value
      | call | parameter | directCall | temporary => cases edit
  | setCall _ tag =>
      cases mutates
      simp only [apply] at result
      refine exists_applies_of_changeNode result fun node edited edit => ?_
      cases node with
      | call =>
          obtain ⟨_, -, same⟩ := bind_eq_ok_iff.mp edit
          cases same
          exact .setCall tag
      | constant | parameter | directCall | temporary => cases edit
  | setDefinition _ tag =>
      cases mutates
      simp only [apply] at result
      refine exists_applies_of_changeNode result fun node edited edit => ?_
      cases node with
      | directCall =>
          obtain ⟨_, -, same⟩ := bind_eq_ok_iff.mp edit
          cases same
          exact .setDefinition tag
      | constant | call | parameter | temporary => cases edit
  | setIndex _ index =>
      cases mutates
      simp only [apply] at result
      refine exists_applies_of_changeNode result fun node edited edit => ?_
      cases node with
      | parameter =>
          cases edit
          exact .setParameter index
      | temporary =>
          cases edit
          exact .setTemporary index
      | constant | call | directCall => cases edit
  | setName _ name =>
      cases mutates
      cases target with
      | note id =>
          simp only [apply, bind_eq_ok_iff, require_eq_ok_iff] at result
          obtain ⟨note, found, same⟩ := result
          cases same
          exact ⟨_, _, object?_note_eq_some_iff.mpr found, .setName name,
            updates_setNote store found _⟩
      | node | list | block | table => cases result
  | set container slot child =>
      cases mutates
      exact (Replaces.ofSet result).2.exists_applies
  | add container name child =>
      cases mutates
      exact (Appends.ofAdd result).2.exists_applies

end Inversion

end Store

section Trees

variable {α β : Type} {tree? : Handle → Option Tree} {wrap : α → Handle}
  {wrapTree : β → Tree}

theorem Container.Entries.ext {left right : List (String × α)}
    (names : left.map Prod.fst = right.map Prod.fst)
    (children : left.map Prod.snd = right.map Prod.snd) : left = right := by
  have whole : ∀ entries : List (String × α),
      entries = (entries.map Prod.fst).zip (entries.map Prod.snd) :=
    fun _ => List.zip_of_prod rfl rfl
  rw [whole left, whole right, names, children]

/-- A container of objects and one of trees have the same names, and the trees
are those of the objects. -/
structure Depicts (tree? : Handle → Option Tree) (wrap : α → Handle)
    (wrapTree : β → Tree) (named : Named α) (entries : List (String × β)) :
    Prop where
  consistent : named.Consistent
  same : named.toList.map (Prod.map id (tree? ∘ wrap)) =
    entries.map (Prod.map id (some ∘ wrapTree))

namespace Depicts

variable {named edited : Named α} {entries entries' : List (String × β)}

theorem ofParts (consistent : named.Consistent)
    (names : entries.map Prod.fst = named.names.toList)
    (parts : (named.children.toList.map wrap).map tree? =
      (entries.map fun entry => wrapTree entry.2).map some) :
    Depicts tree? wrap wrapTree named entries where
  consistent := consistent
  same := by
    apply Container.Entries.ext
    · simpa [Function.comp_def, names] using consistent.names_toList
    · rw [← consistent.children_toList] at parts
      simpa [Function.comp_def] using parts

theorem injective (injective : wrapTree.Injective) :
    (List.map (Prod.map (id : String → String) (some ∘ wrapTree))).Injective :=
  List.map_injective_iff.mpr <|
    Function.Injective.prodMap Function.injective_id <|
      (Option.some_injective Tree).comp injective

theorem exists_item (depicts : Depicts tree? wrap wrapTree named entries)
    {child : α} (member : child ∈ named.children) :
    ∃ item, tree? (wrap child) = some (wrapTree item) := by
  rw [Array.mem_def, ← depicts.consistent.children_toList] at member
  obtain ⟨entry, entryMember, rfl⟩ := List.mem_map.mp member
  have inside : Prod.map id (tree? ∘ wrap) entry ∈
      entries.map (Prod.map id (some ∘ wrapTree)) :=
    depicts.same ▸ List.mem_map_of_mem entryMember
  obtain ⟨item, -, same⟩ := List.mem_map.mp inside
  exact ⟨item.2, (congrArg Prod.snd same).symm⟩

/-- To replace a child is to replace its tree. -/
theorem set_eq (before : Depicts tree? wrap wrapTree named entries)
    (after : Depicts tree? wrap wrapTree edited entries')
    (injects : wrapTree.Injective) {slot : Slot} {child : α}
    (replaced : named.setSlot slot child = .ok edited) :
    ∃ item, tree? (wrap child) = some (wrapTree item) ∧
      Container.Entries.replace entries slot item = entries' := by
  obtain ⟨item, itemTree⟩ :=
    after.exists_item (Named.Edit.ofSetSlot replaced).mem
  have objects := before.consistent.map_toList_setSlot slot child
  rw [replaced] at objects
  have mapped :=
    Container.Entries.set_map (tree? ∘ wrap) named.toList slot child
  have mapped' := Container.Entries.set_map (some ∘ wrapTree) entries slot item
  rw [← objects, before.same, Function.comp_apply, itemTree] at mapped
  rw [Function.comp_apply, mapped] at mapped'
  refine ⟨item, itemTree, Container.Entries.replace_eq ?_⟩
  cases result : Container.Entries.set entries slot item with
  | error reason =>
      rw [result] at mapped'
      cases mapped'
  | ok found =>
      rw [result] at mapped'
      have same := (after.same).symm.trans (Except.ok.inj mapped')
      exact congrArg Except.ok (injective injects same).symm

/-- To add a child is to add its tree. -/
theorem add_eq (before : Depicts tree? wrap wrapTree named entries)
    (after : Depicts tree? wrap wrapTree edited entries')
    (injects : wrapTree.Injective) {name : String} {child : α}
    (added : named.add name child = .ok edited) :
    ∃ item, tree? (wrap child) = some (wrapTree item) ∧
      entries ++ [(name, item)] = entries' := by
  obtain ⟨item, itemTree⟩ := after.exists_item (Named.Edit.add added).mem
  refine ⟨item, itemTree, injective injects ?_⟩
  rw [← after.same, before.consistent.toList_add added, List.map_append,
    List.map_append, before.same]
  simp [itemTree]

end Depicts

section Blocks

variable {block edited : Array NoteId} {calls calls' : AnnotationBlock}
  {child : NoteId}

theorem exists_call_of_mem
    (parts : (Object.block block : Object).children.map tree? =
      (calls.map Tree.annotationCall).map some)
    (member : child ∈ block) :
    ∃ call, tree? (.note child) = some (.annotationCall call) := by
  have inside : tree? (.note child) ∈
      (Object.block block : Object).children.map tree? :=
    List.mem_map_of_mem (List.mem_map_of_mem member.val)
  rw [parts] at inside
  obtain ⟨_, calledTree, same⟩ := List.mem_map.mp inside
  obtain ⟨call, -, rfl⟩ := List.mem_map.mp calledTree
  exact ⟨call, same.symm⟩

theorem injective_map_annotationCall :
    (fun calls : AnnotationBlock =>
      (calls.map Tree.annotationCall).map some).Injective := by
  have injects : Tree.annotationCall.Injective :=
    fun _ _ => Tree.annotationCall.inj
  exact (List.map_injective_iff.mpr (Option.some_injective Tree)).comp
    (List.map_injective_iff.mpr injects)

theorem exists_call_of_set {position : Nat} {inRange : position < block.size}
    (parts : (Object.block block : Object).children.map tree? =
      (calls.map Tree.annotationCall).map some)
    (parts' : (Object.block (block.set position child inRange) :
      Object).children.map tree? = (calls'.map Tree.annotationCall).map some) :
    ∃ call, tree? (.note child) = some (.annotationCall call) ∧
      calls.set position call = calls' := by
  obtain ⟨call, found⟩ := exists_call_of_mem parts' (Array.mem_set inRange)
  refine ⟨call, found, injective_map_annotationCall ?_⟩
  simp only [Object.children, Array.toList_set, List.map_set] at parts parts' ⊢
  rw [← parts, ← parts', found]

theorem exists_call_of_push
    (parts : (Object.block block : Object).children.map tree? =
      (calls.map Tree.annotationCall).map some)
    (parts' : (Object.block (block.push child) : Object).children.map tree? =
      (calls'.map Tree.annotationCall).map some) :
    ∃ call, tree? (.note child) = some (.annotationCall call) ∧
      calls ++ [call] = calls' := by
  obtain ⟨call, found⟩ := exists_call_of_mem parts' Array.mem_push_self
  refine ⟨call, found, injective_map_annotationCall ?_⟩
  simp only [Object.children, Array.toList_push, List.map_append]
    at parts parts' ⊢
  rw [← parts, ← parts']
  simp [found]

end Blocks

namespace Operation

variable {operation : Operation} {object edited : Object}
  {trees trees' : List Tree} {before after : Tree}

/-- The tree of the object that an operation makes is the former tree, edited,
provided that the trees of the parts are what they were. -/
theorem Edits.edit_eq (edits : operation.Edits object edited)
    (inStep : object.Consistent) (inStep' : edited.Consistent)
    (parts : object.children.map tree? = trees.map some)
    (parts' : edited.children.map tree? = trees'.map some)
    (assembles : object.Assembles trees before)
    (assembles' : edited.Assembles trees' after) :
    before.edit (operation.treeEdit (operation.child?.bind tree?)) = after := by
  cases edits with
  | setValue | setCall | setParameter | setTemporary =>
      cases assembles with
      | leaf alone =>
          cases assembles' with
          | leaf alone' =>
              cases alone
              cases alone'
              rfl
  | setDefinition tag =>
      cases assembles with
      | leaf alone => cases alone
      | directCall arguments =>
          cases assembles' with
          | leaf alone' => cases alone'
          | directCall arguments' =>
              have same : some (Tree.arguments arguments) =
                  some (.arguments arguments') :=
                (List.cons.inj parts).1.symm.trans (List.cons.inj parts').1
              cases same
              rfl
  | setName name =>
      cases assembles with
      | note arguments =>
          cases assembles' with
          | note arguments' =>
              have same : some (Tree.arguments arguments) =
                  some (.arguments arguments') :=
                (List.cons.inj parts).1.symm.trans (List.cons.inj parts').1
              cases same
              rfl
  | setInList replaced =>
      cases assembles with
      | list names =>
          cases assembles' with
          | list names' =>
              have depicts := Depicts.ofParts inStep names parts
              have depicts' := Depicts.ofParts inStep' names' parts'
              obtain ⟨item, itemTree, same⟩ := depicts.set_eq depicts'
                (fun _ _ => Tree.expression.inj) replaced
              simp [treeEdit, child?, itemTree, Tree.edit, same]
  | setInBlock position inRange =>
      cases assembles with
      | block calls =>
          cases assembles' with
          | block calls' =>
              obtain ⟨call, callTree, same⟩ := exists_call_of_set parts parts'
              simp [treeEdit, child?, callTree, Tree.edit, same]
  | setInTable replaced =>
      cases assembles with
      | table names =>
          cases assembles' with
          | table names' =>
              have depicts := Depicts.ofParts inStep names parts
              have depicts' := Depicts.ofParts inStep' names' parts'
              obtain ⟨item, itemTree, same⟩ := depicts.set_eq depicts'
                (fun _ _ => Tree.annotationBlock.inj) replaced
              simp [treeEdit, child?, itemTree, Tree.edit, same]
  | addToList added =>
      cases assembles with
      | list names =>
          cases assembles' with
          | list names' =>
              have depicts := Depicts.ofParts inStep names parts
              have depicts' := Depicts.ofParts inStep' names' parts'
              obtain ⟨item, itemTree, same⟩ := depicts.add_eq depicts'
                (fun _ _ => Tree.expression.inj) added
              simp [treeEdit, child?, itemTree, Tree.edit, same]
  | addToBlock child =>
      cases assembles with
      | block calls =>
          cases assembles' with
          | block calls' =>
              obtain ⟨call, callTree, same⟩ := exists_call_of_push parts parts'
              simp [treeEdit, Operation.child?, callTree, Tree.edit, same]
  | addToTable added =>
      cases assembles with
      | table names =>
          cases assembles' with
          | table names' =>
              have depicts := Depicts.ofParts inStep names parts
              have depicts' := Depicts.ofParts inStep' names' parts'
              obtain ⟨item, itemTree, same⟩ := depicts.add_eq depicts'
                (fun _ _ => Tree.annotationBlock.inj) added
              simp [treeEdit, child?, itemTree, Tree.edit, same]

end Operation

end Trees

end MaterialGraph
