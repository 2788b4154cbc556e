import MaterialGraph.Named
import Std.Data.HashMap.Lemmas

/-!
# Named containers stay in step

The names, the positions of the names and the children of a container are
three views of one list of entries.  Every container that is built by adding
entries keeps them in step, and the list of its entries then tells all there
is to know about it.
-/

namespace MaterialGraph

namespace Named

variable {α β : Type}

/-- There is one name for each child, and the map knows the index of every
name and no other indices. -/
structure Consistent (named : Named α) : Prop where
  size_eq : named.names.size = named.children.size
  position_iff : ∀ (name : String) (index : Nat),
    named.positions[name]? = some index ↔ named.names[index]? = some name

theorem consistent_empty : Consistent ({} : Named α) where
  size_eq := rfl
  position_iff := by simp

namespace Consistent

variable {named extended : Named α}

theorem length_names (consistent : named.Consistent) :
    named.names.toList.length = named.children.toList.length := by
  simp [consistent.size_eq]

theorem names_toList (consistent : named.Consistent) :
    named.toList.map Prod.fst = named.names.toList := by
  have sameLength :
      named.names.toList.length ≤ named.children.toList.length := by
    simp [consistent.size_eq]
  exact List.map_fst_zip sameLength

theorem children_toList (consistent : named.Consistent) :
    named.toList.map Prod.snd = named.children.toList := by
  have sameLength :
      named.children.toList.length ≤ named.names.toList.length := by
    simp [consistent.size_eq]
  exact List.map_snd_zip sameLength

theorem length_toList (consistent : named.Consistent) :
    named.toList.length = named.size := by
  simp [Named.toList, Named.size, consistent.size_eq]

theorem nodup (consistent : named.Consistent) :
    (named.toList.map Prod.fst).Nodup := by
  rw [consistent.names_toList]
  refine List.pairwise_iff_getElem.mpr ?_
  intro first second firstInside secondInside less same
  have positionFirst := (consistent.position_iff _ first).mpr
    (Array.getElem?_eq_getElem (by simpa using firstInside))
  have positionSecond := (consistent.position_iff _ second).mpr
    (Array.getElem?_eq_getElem (by simpa using secondInside))
  simp only [Array.getElem_toList] at same
  rw [← same, positionFirst, Option.some.injEq] at positionSecond
  omega

theorem contains_iff (consistent : named.Consistent) (name : String) :
    named.positions.contains name ↔ name ∈ named.toList.map Prod.fst := by
  rw [Std.HashMap.contains_eq_isSome_getElem?, Option.isSome_iff_exists,
    consistent.names_toList, List.mem_iff_getElem?]
  simp only [consistent.position_iff, Array.getElem?_toList]

private theorem position_push_iff (consistent : named.Consistent)
    {name : String}
    (absent : name ∉ named.toList.map Prod.fst) (other : String) (index : Nat) :
    (named.positions.insert name named.children.size)[other]? = some index ↔
      (named.names.push name)[index]? = some other := by
  rw [Std.HashMap.getElem?_insert, Array.getElem?_push, ← consistent.size_eq]
  by_cases sameName : name = other
  · subst sameName
    have elsewhere : named.names[index]? ≠ some name := by
      intro found
      rw [consistent.names_toList] at absent
      exact absent (List.mem_of_getElem? (by simpa using found))
    by_cases last : index = named.names.size
    · simp [last]
    · simp [last, elsewhere, eq_comm]
  · by_cases last : index = named.names.size
    · simp [last, sameName, consistent.position_iff]
    · simp [last, sameName, consistent.position_iff]

/-- An entry with a new name comes last. -/
theorem add_of_notMem (consistent : named.Consistent) {name : String}
    (child : α) (absent : name ∉ named.toList.map Prod.fst) :
    ∃ extended, named.add name child = .ok extended ∧ extended.Consistent ∧
      extended.toList = named.toList ++ [(name, child)] := by
  have unknown : ¬named.positions.contains name := by
    rwa [consistent.contains_iff]
  refine ⟨_, by rw [Named.add, if_neg unknown], ⟨?_, ?_⟩, ?_⟩
  · simp [consistent.size_eq]
  · exact consistent.position_push_iff absent
  · simp only [toList, Array.toList_push]
    exact List.zip_append (by simp [consistent.size_eq])

theorem add_of_mem (consistent : named.Consistent) {name : String} (child : α)
    (present : name ∈ named.toList.map Prod.fst) :
    named.add name child = .error (.duplicateName name) := by
  rw [Named.add, if_pos ((consistent.contains_iff name).mpr present)]

theorem add (consistent : named.Consistent) {name : String} {child : α}
    (added : named.add name child = .ok extended) : extended.Consistent := by
  by_cases present : name ∈ named.toList.map Prod.fst
  · rw [consistent.add_of_mem child present] at added
    cases added
  · obtain ⟨_, result, consistentExtended, -⟩ :=
      consistent.add_of_notMem child present
    rw [result] at added
    cases added
    exact consistentExtended

theorem toList_add (consistent : named.Consistent) {name : String} {child : α}
    (added : named.add name child = .ok extended) :
    extended.toList = named.toList ++ [(name, child)] := by
  by_cases present : name ∈ named.toList.map Prod.fst
  · rw [consistent.add_of_mem child present] at added
    cases added
  · obtain ⟨_, result, -, entries⟩ := consistent.add_of_notMem child present
    rw [result] at added
    cases added
    exact entries

theorem set (consistent : named.Consistent) {index : Nat} {child : α}
    (edited : named.set index child = .ok extended) : extended.Consistent := by
  unfold Named.set at edited
  split at edited
  · cases edited
    exact ⟨by simp [consistent.size_eq], consistent.position_iff⟩
  · cases edited

theorem setNamed (consistent : named.Consistent) {name : String} {child : α}
    (edited : named.setNamed name child = .ok extended) :
      extended.Consistent := by
  unfold Named.setNamed at edited
  split at edited
  · exact consistent.set edited
  · cases edited

theorem nameAt?_eq (consistent : named.Consistent) (index : Nat) :
    named.nameAt? index = named.toList[index]?.map Prod.fst := by
  rw [← List.getElem?_map, consistent.names_toList, nameAt?,
    Array.getElem?_toList]

theorem get?_eq (consistent : named.Consistent) (index : Nat) :
    named.get? index = named.toList[index]?.map Prod.snd := by
  rw [← List.getElem?_map, consistent.children_toList, Named.get?,
    Array.getElem?_toList]

theorem isSome_nameAt? (consistent : named.Consistent) (index : Nat) :
    (named.nameAt? index).isSome ↔ index < named.size := by
  simp [consistent.nameAt?_eq, consistent.length_toList]

theorem isSome_get? (consistent : named.Consistent) (index : Nat) :
    (named.get? index).isSome ↔ index < named.size := by
  simp [consistent.get?_eq, consistent.length_toList]

theorem indexOf?_eq_some_iff (consistent : named.Consistent) {name : String}
    {index : Nat} :
    named.indexOf? name = some index ↔ named.nameAt? index = some name :=
  consistent.position_iff name index

theorem indexOf?_eq (consistent : named.Consistent) (name : String) :
    named.indexOf? name = named.toList.findIdx? (·.1 == name) := by
  cases found : named.toList.findIdx? (·.1 == name) with
  | none =>
      rw [Option.eq_none_iff_forall_ne_some]
      intro index known
      rw [consistent.indexOf?_eq_some_iff, consistent.nameAt?_eq,
        Option.map_eq_some_iff] at known
      obtain ⟨entry, there, sameName⟩ := known
      have different := List.findIdx?_eq_none_iff.mp found entry
        (List.mem_of_getElem? there)
      simp [sameName] at different
  | some index =>
      obtain ⟨inside, sameName, -⟩ :=
        List.findIdx?_eq_some_iff_getElem.mp found
      rw [consistent.indexOf?_eq_some_iff, consistent.nameAt?_eq,
        List.getElem?_eq_getElem inside, Option.map_some, eq_of_beq sameName]

theorem withChildren (consistent : named.Consistent) {children : Array β}
    (sameSize : children.size = named.children.size) :
    (named.withChildren children).Consistent :=
  ⟨consistent.size_eq.trans sameSize.symm, consistent.position_iff⟩

end Consistent

theorem mapM_eq_map {m : Type → Type} [Monad m] [LawfulMonad m]
    (change : α → m β) (named : Named α) :
    named.mapM change =
      (fun children => named.withChildren children.toArray) <$>
        named.children.toList.mapM change := by
  simp [Named.mapM, Array.mapM_eq_mapM_toList]

/-- The container with further entries; those with a name that is not new are
left out. -/
def addAll (named : Named α) (entries : List (String × α)) : Named α :=
  entries.foldl
    (fun named entry =>
      match named.add entry.1 entry.2 with
      | .ok extended => extended
      | .error _ => named)
    named

theorem addAll_cons {named extended : Named α} {name : String} {child : α}
    (added : named.add name child = .ok extended) (rest : List (String × α)) :
    named.addAll ((name, child) :: rest) = extended.addAll rest := by
  simp [addAll, added]

theorem set_of_size_le {named : Named α} {index : Nat} (child : α)
    (outside : named.size ≤ index) :
    named.set index child = .error (.indexOutOfRange index named.size) := by
  have notInside : ¬index < named.children.size := Nat.not_lt_of_le outside
  rw [Named.set, dif_neg notInside]

theorem modify_zip {names : List String} {children : List α} (index : Nat)
    (child : α) :
    (names.zip children).modify index (fun entry => (entry.1, child)) =
      names.zip (children.set index child) := by
  induction names generalizing children index with
  | nil => simp
  | cons name names induction =>
      cases children with
      | nil => simp
      | cons first rest =>
          cases index with
          | zero => simp
          | succ index => simp [induction]

/-- Where there is an entry, its child is replaced. -/
theorem exists_set_of_lt {named : Named α} {index : Nat} (child : α)
    (inRange : index < named.size) :
    ∃ edited, named.set index child = .ok edited ∧
      edited.toList =
        named.toList.modify index fun entry => (entry.1, child) := by
  have inside : index < named.children.size := inRange
  refine ⟨_, by rw [Named.set, dif_pos inside], ?_⟩
  rw [toList, toList, modify_zip, Array.toList_set]

theorem set_eq_ok_iff {named edited : Named α} {index : Nat} {child : α} :
    named.set index child = .ok edited ↔
      ∃ inRange : index < named.children.size,
        named.withChildren (named.children.set index child inRange) =
          edited := by
  unfold Named.set
  split
  · rename_i inRange
    simp [withChildren, inRange]
  · rename_i outside
    simp [outside]

theorem children_add {named extended : Named α} {name : String} {child : α}
    (added : named.add name child = .ok extended) :
    extended.children = named.children.push child := by
  unfold Named.add at added
  split at added
  · cases added
  · cases added
    rfl

theorem mem_of_mem_addAll {named : Named α} {entries : List (String × α)}
    {child : α} (member : child ∈ (named.addAll entries).children) :
    child ∈ named.children ∨ child ∈ entries.map Prod.snd := by
  induction entries generalizing named with
  | nil => exact .inl member
  | cons entry rest induction =>
      simp only [Named.addAll, List.foldl_cons] at member
      rw [List.map_cons, List.mem_cons]
      split at member
      · rename_i extended added
        rcases induction member with inside | later
        · rw [children_add added, Array.mem_push] at inside
          rcases inside with earlier | same
          · exact .inl earlier
          · exact .inr (.inl same)
        · exact .inr (.inr later)
      · rcases induction member with inside | later
        · exact .inl inside
        · exact .inr (.inr later)

theorem mem_of_mem_ofList {entries : List (String × α)} {child : α}
    (member : child ∈ (ofList entries).children) :
    child ∈ entries.map Prod.snd := by
  rcases mem_of_mem_addAll member with inside | listed
  · exact (Array.not_mem_empty child inside).elim
  · exact listed

theorem Consistent.addAll {named : Named α} (consistent : named.Consistent)
    (entries : List (String × α)) : (named.addAll entries).Consistent := by
  induction entries generalizing named with
  | nil => exact consistent
  | cons entry rest induction =>
      simp only [Named.addAll, List.foldl_cons]
      split
      · rename_i added
        exact induction (consistent.add added)
      · exact induction consistent

theorem Consistent.toList_addAll {named : Named α}
    (consistent : named.Consistent) {entries : List (String × α)}
    (distinct : (named.toList.map Prod.fst ++ entries.map Prod.fst).Nodup) :
    (named.addAll entries).toList = named.toList ++ entries := by
  induction entries generalizing named with
  | nil => simp [Named.addAll]
  | cons entry rest induction =>
      have absent : entry.1 ∉ named.toList.map Prod.fst := by
        intro present
        have different := (List.nodup_append.mp distinct).2.2
        exact different entry.1 present entry.1 (by simp) rfl
      obtain ⟨extended, added, consistentExtended, toListExtended⟩ :=
        consistent.add_of_notMem entry.2 absent
      rw [addAll_cons added, induction consistentExtended, toListExtended]
      · simp
      · simpa [toListExtended] using distinct

theorem consistent_ofList (entries : List (String × α)) :
    (ofList entries).Consistent :=
  consistent_empty.addAll entries

theorem toList_ofList {entries : List (String × α)}
    (distinct : (entries.map Prod.fst).Nodup) :
    (ofList entries).toList = entries :=
  consistent_empty.toList_addAll distinct

end Named

end MaterialGraph
