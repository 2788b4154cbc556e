import MaterialGraph.Proofs.Named.InPlace

/-!
# Named containers are lists of entries

Whatever is asked of a named container, the answers are those that a plain list
of its entries gives, and the container stays the one with those entries.  This
holds of every single request, and therefore of every sequence of requests that
starts with an empty container.  A container that is edited in place gives the
same answers, and is left as it is by every request that it refuses.
-/

namespace MaterialGraph

namespace Container

/-- What can be asked of a container.  New children may be made by steps that
change a state. -/
inductive Request (σ α : Type)
  | add (name : String) (child : α)
  | set (slot : Slot) (child : α)
  | size
  | indexOf (name : String)
  | nameAt (index : Nat)
  | get (slot : Slot)
  | entries
  | map (change : α → StateM σ α)

inductive Response (α : Type)
  | done
  | refused (reason : EditError)
  | size (size : Nat)
  | index (found : Option Nat)
  | name (found : Option String)
  | child (found : Option α)
  | entries (entries : List (String × α))

variable {σ α container : Type}

/-- A refused edit leaves the container as it is. -/
def edit (change : container → Except EditError container) :
    StateM (container × σ) (Response α) := fun (before, state) =>
  match change before with
  | .ok edited => (.done, edited, state)
  | .error reason => (.refused reason, before, state)

def inspect (question : container → Response α) :
    StateM (container × σ) (Response α) := fun (before, state) =>
  (question before, before, state)

def rebuild (change : container → StateM σ container) :
    StateM (container × σ) (Response α) := fun (before, state) =>
  let (changed, next) := (change before).run state
  (.done, changed, next)

def answer : Request σ α → StateM (Named α × σ) (Response α)
  | .add name child => edit (·.add name child)
  | .set slot child => edit (·.setSlot slot child)
  | .size => inspect fun named => .size named.size
  | .indexOf name => inspect fun named => .index (named.indexOf? name)
  | .nameAt index => inspect fun named => .name (named.nameAt? index)
  | .get slot => inspect fun named => .child (named.getSlot? slot)
  | .entries => inspect fun named => .entries named.toList
  | .map change => rebuild (·.mapM change)

/-- An edit in place.  The container is whatever the edit has left, also if it
is refused. -/
def editInPlace (change : InPlace container Unit) :
    StateM (container × σ) (Response α) := fun (before, state) =>
  match change before with
  | .ok _ edited => (.done, edited, state)
  | .error reason left => (.refused reason, left, state)

/-- The answers of a container that is edited in place. -/
def answerInPlace : Request σ α → StateM (Named α × σ) (Response α)
  | .add name child => editInPlace (Named.addInPlace name child)
  | .set slot child => editInPlace (Named.setSlotInPlace slot child)
  | request => answer request

namespace Entries

/-- The position of a slot in a list of entries. -/
def locate (entries : List (String × α)) : Slot → Except EditError Nat
  | .index position =>
      if position < entries.length then .ok position
      else .error (.indexOutOfRange position entries.length)
  | .name name =>
      match entries.findIdx? (·.1 == name) with
      | some position => .ok position
      | none => .error (.nameNotFound name)

def add (entries : List (String × α)) (name : String) (child : α) :
    Except EditError (List (String × α)) :=
  if name ∈ entries.map Prod.fst then .error (.duplicateName name)
  else .ok (entries ++ [(name, child)])

def set (entries : List (String × α)) (slot : Slot) (child : α) :
    Except EditError (List (String × α)) := do
  let position ← locate entries slot
  return entries.modify position fun entry => (entry.1, child)

def get? (entries : List (String × α)) (slot : Slot) : Option α :=
  match locate entries slot with
  | .ok position => entries[position]?.map Prod.snd
  | .error _ => none

def mapM (entries : List (String × α)) (change : α → StateM σ α) :
    StateM σ (List (String × α)) :=
  entries.mapM fun entry => do
    let changed ← change entry.2
    return (entry.1, changed)

/-- What a plain list of entries answers. -/
def answer : Request σ α → StateM (List (String × α) × σ) (Response α)
  | .add name child => edit (add · name child)
  | .set slot child => edit (set · slot child)
  | .size => inspect fun entries => .size entries.length
  | .indexOf name => inspect fun entries =>
      .index (entries.findIdx? (·.1 == name))
  | .nameAt index => inspect fun entries =>
      .name (entries[index]?.map Prod.fst)
  | .get slot => inspect fun entries => .child (get? entries slot)
  | .entries => inspect .entries
  | .map change => rebuild (mapM · change)

end Entries

end Container

open Container

section Steps

variable {σ α β : Type}

theorem run_mapM_cons (change : α → StateM σ β) (child : α) (rest : List α)
    (state : σ) :
    ((child :: rest).mapM change).run state =
      (((change child).run state).1 ::
          ((rest.mapM change).run ((change child).run state).2).1,
        ((rest.mapM change).run ((change child).run state).2).2) := by
  rw [List.mapM_cons]
  rfl

theorem length_run_mapM (change : α → StateM σ β) (children : List α)
    (state : σ) :
    ((children.mapM change).run state).1.length = children.length := by
  induction children generalizing state with
  | nil => rfl
  | cons child rest induction =>
      rw [run_mapM_cons, List.length_cons, induction, List.length_cons]

/-- To change the entries is to change the children under their names. -/
theorem Container.Entries.run_mapM_zip (change : α → StateM σ α)
    {names : List String} {children : List α}
    (sameLength : names.length = children.length) (state : σ) :
    (mapM (names.zip children) change).run state =
      (names.zip ((children.mapM change).run state).1,
        ((children.mapM change).run state).2) := by
  unfold mapM
  induction children generalizing names state with
  | nil =>
      cases List.length_eq_zero_iff.mp sameLength
      rfl
  | cons child rest induction =>
      cases names with
      | nil => cases sameLength
      | cons name names =>
          have later := induction (Nat.succ.inj sameLength)
            ((change child).run state).2
          rw [List.zip_cons_cons, run_mapM_cons, run_mapM_cons]
          exact congrArg (fun others => (_ :: others.1, others.2)) later

end Steps

namespace Named.Consistent

variable {α : Type} {named : Named α}

theorem map_toList_add (consistent : named.Consistent) (name : String)
    (child : α) :
    (named.add name child).map toList =
      Entries.add named.toList name child := by
  unfold Entries.add
  split
  · rename_i present
    rw [consistent.add_of_mem child present]
    rfl
  · rename_i absent
    obtain ⟨extended, added, -, entries⟩ := consistent.add_of_notMem child absent
    rw [added, ← entries]
    rfl

theorem map_toList_set (consistent : named.Consistent) (index : Nat)
    (child : α) :
    (named.set index child).map toList =
      Entries.set named.toList (.index index) child := by
  simp only [Entries.set, Entries.locate, consistent.length_toList]
  by_cases inRange : index < named.size
  · obtain ⟨edited, replaced, entries⟩ := exists_set_of_lt child inRange
    rw [replaced, if_pos inRange]
    exact congrArg Except.ok entries
  · rw [set_of_size_le child (Nat.le_of_not_lt inRange), if_neg inRange]
    rfl

theorem map_toList_setNamed (consistent : named.Consistent) (name : String)
    (child : α) :
    (named.setNamed name child).map toList =
      Entries.set named.toList (.name name) child := by
  simp only [Named.setNamed, Entries.set, Entries.locate, consistent.indexOf?_eq]
  cases found : named.toList.findIdx? (·.1 == name) with
  | none => rfl
  | some index =>
      have inside := (List.findIdx?_eq_some_iff_getElem.mp found).1
      rw [consistent.length_toList] at inside
      obtain ⟨edited, replaced, entries⟩ := exists_set_of_lt child inside
      simp only [replaced]
      exact congrArg Except.ok entries

theorem map_toList_setSlot (consistent : named.Consistent) (slot : Slot)
    (child : α) :
    (named.setSlot slot child).map toList =
      Entries.set named.toList slot child := by
  cases slot with
  | index index => exact consistent.map_toList_set index child
  | name name => exact consistent.map_toList_setNamed name child

theorem getSlot?_eq (consistent : named.Consistent) (slot : Slot) :
    named.getSlot? slot = Entries.get? named.toList slot := by
  cases slot with
  | index index =>
      simp only [getSlot?, Entries.get?, Entries.locate, consistent.get?_eq]
      by_cases inside : index < named.toList.length
      · rw [if_pos inside]
      · simp [inside]
  | name name =>
      simp only [getSlot?, find?, Entries.get?, Entries.locate,
        consistent.indexOf?_eq]
      cases named.toList.findIdx? (·.1 == name) with
      | none => rfl
      | some index => exact consistent.get?_eq index

end Named.Consistent

namespace Container

/-- A container with given entries, and the same state. -/
structure Represents {σ α : Type} (actual : Named α × σ)
    (expected : List (String × α) × σ) : Prop where
  consistent : actual.1.Consistent
  entries : actual.1.toList = expected.1
  state : actual.2 = expected.2

/-- The same answer, and containers that still correspond. -/
structure Matches {σ α : Type} (actual : Response α × Named α × σ)
    (expected : Response α × List (String × α) × σ) : Prop where
  response : actual.1 = expected.1
  represents : Represents actual.2 expected.2

namespace Matches

variable {σ α : Type} {named : Named α} {state : σ}

theorem inspect (consistent : named.Consistent)
    {question : Named α → Response α}
    {question' : List (String × α) → Response α}
    (same : question named = question' named.toList) :
    Matches ((Container.inspect question).run (named, state))
      ((Container.inspect question').run (named.toList, state)) :=
  ⟨same, consistent, rfl, rfl⟩

theorem edit (consistent : named.Consistent)
    {change : Named α → Except EditError (Named α)}
    {change' : List (String × α) → Except EditError (List (String × α))}
    (inStep : ∀ {edited}, change named = .ok edited → edited.Consistent)
    (same : (change named).map Named.toList = change' named.toList) :
    Matches ((Container.edit change).run (named, state))
      ((Container.edit change').run (named.toList, state)) := by
  simp only [Container.edit, StateT.run, ← same]
  cases result : change named with
  | ok edited => exact ⟨rfl, inStep result, rfl, rfl⟩
  | error reason => exact ⟨rfl, consistent, rfl, rfl⟩

theorem rebuild (consistent : named.Consistent) (change : α → StateM σ α) :
    Matches ((Container.rebuild (·.mapM change)).run (named, state))
      ((Container.rebuild (Entries.mapM · change)).run
        (named.toList, state)) := by
  let made := (named.children.toList.mapM change).run state
  have rebuilt : (named.mapM change).run state =
      (named.withChildren made.1.toArray, made.2) := by
    rw [Named.mapM_eq_map]
    rfl
  have rebuilt' : (Entries.mapM named.toList change).run state =
      (named.names.toList.zip made.1, made.2) :=
    Entries.run_mapM_zip change consistent.length_names state
  have sameSize : made.1.toArray.size = named.children.size := by
    simp [made, length_run_mapM]
  simp only [Container.rebuild, StateT.run] at rebuilt rebuilt' ⊢
  rw [rebuilt, rebuilt']
  exact ⟨rfl, consistent.withChildren sameSize, rfl, rfl⟩

/-- Every request has the answer that the entries give. -/
theorem answer (consistent : named.Consistent) (request : Request σ α) :
    Matches ((Container.answer request).run (named, state))
      ((Entries.answer request).run (named.toList, state)) := by
  unfold Container.answer Entries.answer
  cases request with
  | add name child =>
      apply edit consistent
      · exact consistent.add
      · exact consistent.map_toList_add name child
  | set slot child =>
      apply edit consistent
      · cases slot with
        | index index => exact consistent.set
        | name name => exact consistent.setNamed
      · exact consistent.map_toList_setSlot slot child
  | size =>
      apply inspect consistent
      rw [consistent.length_toList]
  | indexOf name =>
      apply inspect consistent
      rw [consistent.indexOf?_eq]
  | nameAt index =>
      apply inspect consistent
      rw [consistent.nameAt?_eq]
  | get slot =>
      apply inspect consistent
      rw [consistent.getSlot?_eq]
  | entries =>
      apply inspect consistent
      rfl
  | map change => exact rebuild consistent change

end Matches

variable {σ α : Type}

/-- Every sequence of requests has the answers that the entries give. -/
theorem Represents.run_mapM_answer {actual : Named α × σ}
    {expected : List (String × α) × σ} (represents : Represents actual expected)
    (requests : List (Request σ α)) :
    ((requests.mapM answer).run actual).1 =
        ((requests.mapM Entries.answer).run expected).1 ∧
      Represents ((requests.mapM answer).run actual).2
        ((requests.mapM Entries.answer).run expected).2 := by
  induction requests generalizing actual expected with
  | nil => exact ⟨rfl, represents⟩
  | cons request rest induction =>
      obtain ⟨named, state⟩ := actual
      obtain ⟨entries, state'⟩ := expected
      obtain ⟨consistent, sameEntries, sameState⟩ := represents
      cases sameEntries
      cases sameState
      obtain ⟨response, next⟩ := Matches.answer consistent request
      obtain ⟨responses, last⟩ := induction next
      rw [run_mapM_cons, run_mapM_cons]
      refine ⟨?_, last⟩
      rw [List.cons.injEq]
      exact ⟨response, responses⟩

theorem editInPlace_eq {container : Type} {change : InPlace container Unit}
    {plain : container → Except EditError container}
    (mirrors : Mirrors change plain) :
    (editInPlace change : StateM (container × σ) (Response α)) =
      edit plain := by
  funext ⟨before, state⟩
  simp only [editInPlace, edit]
  cases result : plain before with
  | ok edited => rw [mirrors.edited result]
  | error reason => rw [mirrors.refused result]

theorem answerInPlace_eq (request : Request σ α) :
    answerInPlace request = answer request := by
  cases request with
  | add name child => exact editInPlace_eq (Named.mirrors_addInPlace name child)
  | set slot child =>
      exact editInPlace_eq (Named.mirrors_setSlotInPlace slot child)
  | size | indexOf | nameAt | get | entries | map => rfl

/-- A refused request changes nothing. -/
theorem eq_of_answer_eq_refused {actual next : Named α × σ}
    {request : Request σ α} {reason : EditError}
    (refused : (answer request).run actual = (.refused reason, next)) :
    next = actual := by
  unfold answer at refused
  cases request with
  | add | set =>
      simp only [edit, StateT.run] at refused
      split at refused
      · cases refused
      · cases refused
        rfl
  | size | indexOf | nameAt | get | entries | map => cases refused

/-- A container that starts empty answers like a plain list of entries, and its
views stay in step.  So it does if it is edited in place, and then a refused
request has written nothing. -/
theorem answers_eq_entries (requests : List (Request σ α)) (state : σ) :
    ∃ responses named entries next,
      (requests.mapM answer).run ({}, state) = (responses, named, next) ∧
      (requests.mapM answerInPlace).run ({}, state) =
        (responses, named, next) ∧
      (requests.mapM Entries.answer).run ([], state) =
        (responses, entries, next) ∧
      (entries.map Prod.fst).Nodup ∧
      named.toList = entries ∧
      named.names.toList = entries.map Prod.fst ∧
      named.children.toList = entries.map Prod.snd ∧
      (∀ name index, named.indexOf? name = some index ↔
        named.nameAt? index = some name) ∧
      (∀ index, (named.nameAt? index).isSome ↔ index < named.size) ∧
      (∀ index, (named.get? index).isSome ↔ index < named.size) ∧
      (∀ request reason after,
        (answer request).run (named, next) = (.refused reason, after) →
          after = (named, next)) ∧
      ∀ request reason after,
        (answerInPlace request).run (named, next) = (.refused reason, after) →
          after = (named, next) := by
  have start : Represents (({}, state) : Named α × σ) ([], state) :=
    ⟨Named.consistent_empty, rfl, rfl⟩
  obtain ⟨sameResponses, consistent, sameEntries, sameState⟩ :=
    start.run_mapM_answer requests
  let outcome := (requests.mapM answer).run ({}, state)
  let expected := (requests.mapM Entries.answer).run ([], state)
  have inPlace : (answerInPlace : Request σ α → _) = answer :=
    funext answerInPlace_eq
  rw [inPlace]
  refine ⟨outcome.1, outcome.2.1, expected.2.1, outcome.2.2, rfl, rfl,
    Prod.ext sameResponses.symm (Prod.ext rfl sameState.symm), ?_, sameEntries,
    ?_, ?_, fun _ _ => consistent.indexOf?_eq_some_iff,
    consistent.isSome_nameAt?, consistent.isSome_get?,
    fun _ _ _ => eq_of_answer_eq_refused, fun _ _ _ => eq_of_answer_eq_refused⟩
  · rw [← sameEntries]
    exact consistent.nodup
  · rw [← sameEntries, consistent.names_toList]
  · rw [← sameEntries, consistent.children_toList]

end Container

end MaterialGraph
