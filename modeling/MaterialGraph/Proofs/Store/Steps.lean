import MaterialGraph.Proofs.Named.InPlace
import MaterialGraph.Proofs.Store.Building
import MaterialGraph.Proofs.Store.Change

/-!
# Operations step by step

Here operations work on a store in place.  An edit writes its container piece by
piece, and a reader makes objects as it goes on; an operation that is refused
leaves behind whatever it has written by then.  The outcome of an operation is
the one that it has as a whole, and all that a refused one may leave behind is
objects that were not there before.
-/

namespace MaterialGraph

def replaceNoteInPlace (position : Nat) (note : NoteId) :
    InPlace (Array NoteId) Unit := do
  let size := (← get).size
  if position < size then
    modify (·.setIfInBounds position note)
  else
    throw (.indexOutOfRange position size)

/-- Work on a store; what was written before a refusal is kept. -/
abbrev Steps := EStateM Refusal Store

namespace Steps

variable {α container : Type}

/-- Steps fail where there is no object with a tree. -/
instance : MonadFail Steps where
  fail := throw .noTree

def ask (question : Store → Except Refusal α) : Steps α := fun store =>
  match question store with
  | .ok answer => .ok answer store
  | .error reason => .error reason store

/-- Edit a container in place.  Whatever the edit leaves is what the store has
from then on, also if the edit is refused. -/
def edit (find? : Store → Option container)
    (write : Store → container → Store) (change : InPlace container Unit) :
    Steps Unit := fun store =>
  match find? store with
  | none => .error .noTree store
  | some found =>
      match change found with
      | .ok _ edited => .ok () (write store edited)
      | .error reason left => .error (.edit reason) (write store left)

/-- Make an object while its bytes are read. -/
def build (form : Form) (bytes : List UInt8) : Steps Handle := fun store =>
  match form.build (.ofList bytes, store) with
  | .ok made (_, changed) => .ok made changed
  | .error reason (_, left) => .error (.decode reason) left

/-- Write an expression, if it is of a kind that can be changed so. -/
def changeNode (target : Handle) (change : Node → Except Refusal Node) :
    Steps Handle := do
  let (id, node) ← ask (·.requireNode target)
  let changed ← ask fun _ => change node
  modify (·.setNode id changed)
  return target

/-- Write a container, if it and the child are there. -/
def editWith {child : Type} (find? : Store → Option container)
    (write : Store → container → Store) (findChild? : Store → Option child)
    (change : InPlace container Unit) (target : Handle) : Steps Handle := do
  let _ ← ask fun store => Store.require (find? store)
  let _ ← ask fun store => Store.require (findChild? store)
  edit find? write change
  return target

end Steps

namespace Operation

/-- The steps of an operation. -/
def steps : Operation → Steps Handle
  | newConstant value =>
      Store.make (Handle.node <$> Store.newNode (.constant value.type value))
  | newCall type tag => do
      Steps.ask fun _ => Store.requireTag tag
      Store.make (Handle.node <$> Store.newNode (.call type tag))
  | newParameter type index =>
      Store.make (Handle.node <$> Store.newNode (.parameter type index))
  | newTemporary type index =>
      Store.make (Handle.node <$> Store.newNode (.temporary type index))
  | newDirectCall type tag arguments => do
      let list ← Steps.ask (·.requireList arguments)
      Steps.ask fun _ => Store.requireTag tag
      Store.make (Handle.node <$> Store.newNode (.directCall type tag list))
  | newList => Store.make (Handle.list <$> Store.newList {})
  | newNote name arguments => do
      let list ← Steps.ask (·.requireList arguments)
      Store.make (Handle.note <$> Store.newNote ⟨name, list⟩)
  | newBlock => Store.make (Handle.block <$> Store.newBlock #[])
  | newTable => Store.make (Handle.table <$> Store.newTable {})
  | place tree => Store.make tree.place
  | clone source =>
      match source with
      | .node _ | .list _ => Store.clone source
      | _ => throw .wrongSort
  | decode form bytes => Steps.build form bytes
  | reload source => do
      let tree ← Steps.ask (·.requireTree source)
      Steps.build tree.form tree.encode
  | setValue target value =>
      Steps.changeNode target fun
        | .constant type _ => .ok (.constant type value)
        | _ => .error .wrongSort
  | setCall target tag =>
      Steps.changeNode target fun
        | .call type _ => do
            Store.requireTag tag
            return .call type tag
        | _ => .error .wrongSort
  | setDefinition target tag =>
      Steps.changeNode target fun
        | .directCall type _ list => do
            Store.requireTag tag
            return .directCall type tag list
        | _ => .error .wrongSort
  | setIndex target index =>
      Steps.changeNode target fun
        | .parameter type _ => .ok (.parameter type index)
        | .temporary type _ => .ok (.temporary type index)
        | _ => .error .wrongSort
  | setName target name =>
      match target with
      | .note id => do
          let note ← Steps.ask fun store => Store.require (store.note? id)
          modify (·.setNote id { note with name := name })
          return target
      | _ => throw .wrongSort
  | set container slot child =>
      match container, child with
      | .list id, .node child =>
          Steps.editWith (·.list? id) (·.setList id ·) (·.node? child)
            (Named.setSlotInPlace slot child) container
      | .block id, .note child =>
          match slot with
          | .name _ => throw .wrongSort
          | .index position =>
              Steps.editWith (·.block? id) (·.setBlock id ·) (·.note? child)
                (replaceNoteInPlace position child) container
      | .table id, .block child =>
          Steps.editWith (·.table? id) (·.setTable id ·) (·.block? child)
            (Named.setSlotInPlace slot child) container
      | _, _ => throw .wrongSort
  | add container name child =>
      match container, name, child with
      | .list id, some name, .node child =>
          Steps.editWith (·.list? id) (·.setList id ·) (·.node? child)
            (Named.addInPlace name child) container
      | .block id, none, .note child =>
          Steps.editWith (·.block? id) (·.setBlock id ·) (·.note? child)
            (modify (·.push child)) container
      | .table id, some name, .block child =>
          Steps.editWith (·.table? id) (·.setTable id ·) (·.block? child)
            (Named.addInPlace name child) container
      | _, _, _ => throw .wrongSort

end Operation

/-- The edit of a block, as it is when it is carried out at once. -/
def replaceNote (position : Nat) (note : NoteId) (block : Array NoteId) :
    Except EditError (Array NoteId) :=
  if inRange : position < block.size then
    .ok (block.set position note inRange)
  else
    .error (.indexOutOfRange position block.size)

theorem mirrors_replaceNoteInPlace (position : Nat) (note : NoteId) :
    Mirrors (replaceNoteInPlace position note) (replaceNote position note) where
  edited := by
    intro block edited replaced
    unfold replaceNote at replaced
    split at replaced
    · rename_i inRange
      cases replaced
      refine (run_if _ _ _ block).trans ((if_pos inRange).trans ?_)
      apply congrArg (EStateM.Result.ok ())
      simp [Array.setIfInBounds, inRange]
    · cases replaced
  refused := by
    intro block reason refused
    unfold replaceNote at refused
    split at refused
    · cases refused
    · rename_i outside
      cases refused
      exact (run_if _ _ _ block).trans (if_neg outside)

namespace Store

/-- The steps of an operation lead to its outcome.  If they are refused, no more
has been done than that objects were added. -/
inductive LeadTo (store : Store) (steps : Steps Handle) : Outcome → Prop
  | done {handle : Handle} {changed : Store}
      (result : steps store = .ok handle changed) :
      LeadTo store steps (.ok (handle, changed))
  | refused {reason : Refusal} {left : Store}
      (result : steps store = .error reason left) (adds : store.AddsTo left) :
      LeadTo store steps (.error reason)

namespace LeadTo

variable {store : Store} {α container : Type}

theorem make (construction : StateM Store Handle) :
    store.LeadTo (Store.make construction) (store.create construction) :=
  .done rfl

theorem throw (reason : Refusal) :
    store.LeadTo (throw reason) (.error reason) :=
  .refused rfl .refl

theorem congr {steps steps' : Steps Handle} {outcome : Outcome}
    (leads : store.LeadTo steps outcome) (same : steps' store = steps store) :
    store.LeadTo steps' outcome := by
  cases leads with
  | done result => exact .done (same.trans result)
  | refused result adds => exact .refused (same.trans result) adds

/-- A question changes nothing. -/
theorem askBind {question : Store → Except Refusal α} {next : α → Steps Handle}
    {outcome : α → Outcome}
    (later : ∀ answer, question store = .ok answer →
      store.LeadTo (next answer) (outcome answer)) :
    store.LeadTo (Steps.ask question >>= next)
      (question store >>= outcome) := by
  cases asked : question store with
  | ok answer =>
      apply (later answer asked).congr
      simp only [Bind.bind, EStateM.bind, Steps.ask, asked]
  | error reason =>
      refine .refused ?_ .refl
      simp only [Bind.bind, EStateM.bind, Steps.ask, asked]

theorem build (form : Form) (bytes : List UInt8) :
    store.LeadTo (Steps.build form bytes)
      (decodeTree form bytes >>= fun tree => store.create tree.place) := by
  cases read : form.decode (.ofList bytes) with
  | ok tree left =>
      have made := form.makes_build.made read store
      simp only [decodeTree, read]
      have result : Steps.build form bytes store =
          .ok (tree.place.run store).1 (tree.place.run store).2 := by
        simp only [Steps.build, made]
      exact .done result
  | error reason left =>
      obtain ⟨after, refused, adds⟩ := form.makes_build.refused read store
      simp only [decodeTree, read]
      refine .refused ?_ adds
      simp only [Steps.build, refused]

theorem changeNode (target : Handle) {change change' : Node → Except Refusal Node}
    (same : ∀ node, change node = change' node) :
    store.LeadTo (Steps.changeNode target change)
      (store.changeNode target change') := by
  obtain rfl : change = change' := funext same
  apply askBind
  rintro ⟨id, node⟩ -
  apply askBind
  rintro changed -
  exact .done rfl

/-- An edit in place is an edit of the container that is written back. -/
theorem editWith {child : Type} {find? : Store → Option container}
    {write : Store → container → Store} {findChild? : Store → Option child}
    {change : InPlace container Unit}
    {plain : container → Except EditError container}
    (mirrors : Mirrors change plain)
    (unchanged : ∀ found, find? store = some found → write store found = store)
    (target : Handle) :
    store.LeadTo (Steps.editWith find? write findChild? change target)
      (do
        let found ← require (find? store)
        let _ ← require (findChild? store)
        let edited ← liftEdit (plain found)
        return (target, write store edited)) := by
  apply askBind
  intro found known
  have there := require_eq_ok_iff.mp known
  apply askBind
  rintro _ -
  cases result : plain found with
  | ok edited =>
      apply LeadTo.done
      simp only [Bind.bind, EStateM.bind, Steps.edit, there,
        mirrors.edited result]
      rfl
  | error reason =>
      refine .refused ?_ .refl
      simp only [Bind.bind, EStateM.bind, Steps.edit, there,
        mirrors.refused result, unchanged found there]

end LeadTo

section Cloning

variable {α β : Type}

/-- Steps that do in place what a procedure does that leaves nothing if it
fails.  If they fail, no more has been done than that objects were added. -/
structure InSteps (steps : Steps α) (procedure : StateT Store Option α) :
    Prop where
  done : ∀ {store changed : Store} {result : α},
    StateT.run procedure store = some (result, changed) →
      steps store = .ok result changed
  failed : ∀ {store : Store}, StateT.run procedure store = none →
    ∃ left, steps store = .error .noTree left ∧ store.AddsTo left

namespace InSteps

theorem fail : InSteps (MonadFail.fail : Steps α) MonadFail.fail where
  done := nofun
  failed _ := ⟨_, rfl, .refl⟩

theorem pure (result : α) : InSteps (Pure.pure result) (Pure.pure result) where
  done found := by
    cases found
    rfl
  failed := nofun

theorem make (construction : StateM Store α) :
    InSteps (Store.make construction) (Store.make construction) where
  done {store changed result} found := by
    have made : construction.run store = (result, changed) :=
      Option.some.inj found
    change EStateM.Result.ok (construction.run store).1
      (construction.run store).2 = _
    rw [made]
  failed := nofun

variable {steps : Steps α} {procedure : StateT Store Option α}

/-- What comes first must only add objects. -/
theorem bind (first : InSteps steps procedure)
    (adds : ∀ {store changed : Store} {result : α},
      StateT.run procedure store = some (result, changed) →
        store.AddsTo changed)
    {next : α → Steps β} {next' : α → StateT Store Option β}
    (later : ∀ result, InSteps (next result) (next' result)) :
    InSteps (steps >>= next) (procedure >>= next') where
  done {store changed result} found := by
    obtain ⟨⟨middle, between⟩, found, rest⟩ := Option.bind_eq_some_iff.mp found
    simp only [Bind.bind, EStateM.bind, first.done found]
    exact (later middle).done rest
  failed {store} failed := by
    rw [StateT.run_bind] at failed
    cases found : StateT.run procedure store with
    | none =>
        obtain ⟨left, refused, added⟩ := first.failed found
        exact ⟨left, by simp only [Bind.bind, EStateM.bind, refused], added⟩
    | some result =>
        rw [found] at failed
        obtain ⟨left, refused, added⟩ := (later result.1).failed failed
        refine ⟨left, ?_, (adds found).trans added⟩
        simp only [Bind.bind, EStateM.bind, first.done found]
        exact refused

theorem getBind {next : Store → Steps α} {next' : Store → StateT Store Option α}
    (later : ∀ store, InSteps (next store) (next' store)) :
    InSteps (MonadState.get >>= next) (MonadState.get >>= next') where
  done {store _ _} found := (later store).done found
  failed {store} failed := (later store).failed failed

theorem map (wrap : α → β) (inSteps : InSteps steps procedure) :
    InSteps (wrap <$> steps) (wrap <$> procedure) where
  done {store changed result} found := by
    rw [StateT.run_map, Option.map_eq_map, Option.map_eq_some_iff] at found
    obtain ⟨⟨plain, _⟩, found, same⟩ := found
    cases same
    simp only [Functor.map, EStateM.map, inSteps.done found]
  failed {store} failed := by
    rw [StateT.run_map, Option.map_eq_map, Option.map_eq_none_iff] at failed
    obtain ⟨left, refused, added⟩ := inSteps.failed failed
    exact ⟨left, by simp only [Functor.map, EStateM.map, refused], added⟩

theorem mapM {length : Nat}
    (each : ∀ id, InSteps (cloneNode length id) (cloneNode length id))
    (ids : List NodeId) :
    InSteps (ids.mapM (cloneNode length)) (ids.mapM (cloneNode length)) := by
  induction ids with
  | nil => exact pure []
  | cons id rest induction =>
      simp only [List.mapM_cons]
      exact (each id).bind (fun found => (Clones.ofCloneNode found).adds)
        fun _ => induction.bind
          (fun found => (Clones.ofMapM Clones.ofCloneNode found).adds)
          fun _ => pure _

theorem cloneList {length : Nat}
    (each : ∀ id, InSteps (cloneNode length id) (cloneNode length id))
    (id : ListId) :
    InSteps (cloneList (cloneNode length) id)
      (cloneList (cloneNode length) id) := by
  apply getBind
  intro store
  cases store.list? id with
  | none => exact .fail
  | some named =>
      simp only [Named.mapM_eq_map, bind_map_left]
      exact (mapM each named.children.toList).bind
        (fun found => (Clones.ofMapM Clones.ofCloneNode found).adds)
        fun _ => .make _

theorem cloneNode (length : Nat) (id : NodeId) :
    InSteps (cloneNode length id) (cloneNode length id) := by
  induction length generalizing id with
  | zero => exact .fail
  | succ length induction =>
      apply getBind
      intro store
      cases store.node? id with
      | none => exact .fail
      | some node =>
          cases node with
          | constant | call | parameter | temporary => exact .make _
          | directCall type tag list =>
              exact (cloneList induction list).bind
                (fun found =>
                  (ClonesList.ofCloneList Clones.ofCloneNode found).adds)
                fun _ => .make _

theorem clone (source : Handle) :
    InSteps (Store.clone source) (Store.clone source) := by
  cases source with
  | node id => exact getBind fun store => (cloneNode _ id).map _
  | list id => exact getBind fun store => (cloneList (cloneNode _) id).map _
  | note | block | table => exact .fail

end InSteps

/-- An object is cloned in steps. -/
theorem leadTo_clone (store : Store) (source : Handle) :
    store.LeadTo (Store.clone source) (require (store.clone? source)) := by
  cases found : store.clone? source with
  | some outcome => exact .done ((InSteps.clone source).done found)
  | none =>
      obtain ⟨left, refused, adds⟩ := (InSteps.clone source).failed found
      exact .refused refused adds

end Cloning

section Unchanged

variable {store : Store}

theorem setIfInBounds_eq_self {α : Type} {objects : Array α} {index : Nat}
    {object : α} (found : objects[index]? = some object) :
    objects.setIfInBounds index object = objects := by
  apply Array.ext_getElem?
  intro other
  have inRange := (Array.getElem?_eq_some_iff.mp found).1
  rw [Array.getElem?_setIfInBounds, if_pos inRange]
  split
  · rename_i same
    subst same
    exact found.symm
  · rfl

theorem setList_self {id : ListId} {list : Named NodeId}
    (found : store.list? id = some list) : store.setList id list = store := by
  rw [setList, setIfInBounds_eq_self found]

theorem setBlock_self {id : BlockId} {block : Array NoteId}
    (found : store.block? id = some block) :
    store.setBlock id block = store := by
  rw [setBlock, setIfInBounds_eq_self found]

theorem setTable_self {id : TableId} {table : Named BlockId}
    (found : store.table? id = some table) :
    store.setTable id table = store := by
  rw [setTable, setIfInBounds_eq_self found]

end Unchanged

/-- A child of a block is replaced as other children are. -/
theorem set_block_eq (store : Store) (id : BlockId) (position : Nat)
    (child : NoteId) :
    store.set (.block id) (.index position) (.note child) = do
      let block ← require (store.block? id)
      let _ ← require (store.note? child)
      let edited ← liftEdit (replaceNote position child block)
      return (.block id, store.setBlock id edited) := by
  apply congrArg (require (store.block? id) >>= ·)
  funext block
  apply congrArg (require (store.note? child) >>= ·)
  funext _
  unfold replaceNote
  split <;> rfl

theorem leadTo_set (store : Store) (container : Handle) (slot : Slot)
    (child : Handle) :
    store.LeadTo (Operation.steps (.set container slot child))
      (store.set container slot child) := by
  cases container with
  | list id =>
      cases child with
      | node child =>
          exact .editWith (Named.mirrors_setSlotInPlace slot child)
            (fun _ => setList_self) (.list id)
      | list | note | block | table => exact .throw _
  | block id =>
      cases child with
      | note child =>
          cases slot with
          | name name => exact .throw _
          | index position =>
              rw [set_block_eq]
              exact .editWith (mirrors_replaceNoteInPlace position child)
                (fun _ => setBlock_self) (.block id)
      | node | list | block | table => cases slot <;> exact .throw _
  | table id =>
      cases child with
      | block child =>
          exact .editWith (Named.mirrors_setSlotInPlace slot child)
            (fun _ => setTable_self) (.table id)
      | node | list | note | table => exact .throw _
  | node | note => exact .throw _

theorem leadTo_add (store : Store) (container : Handle) (name : Option String)
    (child : Handle) :
    store.LeadTo (Operation.steps (.add container name child))
      (store.add container name child) := by
  cases container with
  | list id =>
      cases child with
      | node child =>
          cases name with
          | some name =>
              exact .editWith (Named.mirrors_addInPlace name child)
                (fun _ => setList_self) (.list id)
          | none => exact .throw _
      | list | note | block | table => cases name <;> exact .throw _
  | block id =>
      cases child with
      | note child =>
          cases name with
          | none =>
              have pushes : Mirrors (modify (Array.push · child))
                  (fun block => .ok (block.push child)) :=
                { edited := by
                    rintro block _ ⟨⟩
                    rfl
                  refused := nofun }
              exact .editWith pushes (fun _ => setBlock_self) (.block id)
          | some name => exact .throw _
      | node | list | block | table => cases name <;> exact .throw _
  | table id =>
      cases child with
      | block child =>
          cases name with
          | some name =>
              exact .editWith (Named.mirrors_addInPlace name child)
                (fun _ => setTable_self) (.table id)
          | none => exact .throw _
      | node | list | note | table => cases name <;> exact .throw _
  | node | note => cases name <;> exact .throw _

/-- Every operation has the outcome that its steps lead to. -/
theorem leadTo_apply (store : Store) (operation : Operation) :
    store.LeadTo operation.steps (store.apply operation) := by
  cases operation with
  | newConstant | newParameter | newTemporary | newList | newBlock | newTable
  | place => exact .make _
  | newCall type tag =>
      apply LeadTo.askBind
      rintro _ -
      exact .make _
  | newDirectCall type tag arguments =>
      apply LeadTo.askBind
      rintro list -
      apply LeadTo.askBind
      rintro _ -
      exact .make _
  | newNote name arguments =>
      apply LeadTo.askBind
      rintro list -
      exact .make _
  | clone source =>
      cases source with
      | node id => exact leadTo_clone store (.node id)
      | list id => exact leadTo_clone store (.list id)
      | note | block | table => exact .throw _
  | decode form bytes => exact .build form bytes
  | reload source =>
      apply LeadTo.askBind
      rintro tree -
      exact .build tree.form tree.encode
  | setValue | setCall | setDefinition | setIndex =>
      simp only [Operation.steps, apply]
      apply LeadTo.changeNode
      intro node
      cases node <;> rfl
  | setName target name =>
      cases target with
      | note id =>
          apply LeadTo.askBind
          rintro note -
          exact .done rfl
      | node | list | block | table => exact .throw _
  | set container slot child => exact leadTo_set store container slot child
  | add container name child => exact leadTo_add store container name child

end Store

end MaterialGraph
