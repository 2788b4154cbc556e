import MaterialGraph.Proofs.Named

/-!
# The entries of a container determine its map

The map from names to positions is the one that is made when the names are
inserted in their order.  So two containers with the same entries are the same,
down to their maps, however they came about.
-/

namespace MaterialGraph

namespace Named

variable {α β : Type}

/-- The map that is made when names are inserted in their order. -/
def positionsOf (names : List String) : Std.HashMap String Nat :=
  names.zipIdx.foldl
    (fun positions entry => positions.insert entry.1 entry.2) {}

theorem positionsOf_concat (names : List String) (name : String) :
    positionsOf (names ++ [name]) =
      (positionsOf names).insert name names.length := by
  simp [positionsOf, List.zipIdx_append]

/-- The views of a container are in step, and its map is made by its names. -/
structure IsBuilt (named : Named α) : Prop extends named.Consistent where
  positions_eq : named.positions = positionsOf named.names.toList

theorem isBuilt_empty : IsBuilt ({} : Named α) where
  toConsistent := consistent_empty
  positions_eq := rfl

namespace IsBuilt

variable {named edited : Named α}

theorem add {name : String} {child : α} (built : named.IsBuilt)
    (added : named.add name child = .ok edited) : edited.IsBuilt where
  toConsistent := built.toConsistent.add added
  positions_eq := by
    unfold Named.add at added
    split at added
    · cases added
    · cases added
      rw [Array.toList_push, positionsOf_concat, ← built.positions_eq,
        Array.length_toList, built.size_eq]

theorem set {index : Nat} {child : α} (built : named.IsBuilt)
    (replaced : named.set index child = .ok edited) : edited.IsBuilt where
  toConsistent := built.toConsistent.set replaced
  positions_eq := by
    obtain ⟨inRange, rfl⟩ := set_eq_ok_iff.mp replaced
    exact built.positions_eq

theorem withChildren (built : named.IsBuilt) {children : Array β}
    (sameSize : children.size = named.children.size) :
    (named.withChildren children).IsBuilt where
  toConsistent := built.toConsistent.withChildren sameSize
  positions_eq := built.positions_eq

theorem addAll (built : named.IsBuilt) (entries : List (String × α)) :
    (named.addAll entries).IsBuilt := by
  induction entries generalizing named with
  | nil => exact built
  | cons entry rest induction =>
      simp only [Named.addAll, List.foldl_cons]
      split
      · rename_i added
        exact induction (built.add added)
      · exact induction built

/-- The list of entries tells all there is to know about a container. -/
theorem eq_of_toList_eq {other : Named α} (built : named.IsBuilt)
    (built' : other.IsBuilt) (same : named.toList = other.toList) :
    named = other := by
  have names : named.names = other.names := by
    rw [← Array.toList_inj, ← built.names_toList, ← built'.names_toList, same]
  have children : named.children = other.children := by
    rw [← Array.toList_inj, ← built.children_toList, ← built'.children_toList,
      same]
  have positions : named.positions = other.positions := by
    rw [built.positions_eq, built'.positions_eq, names]
  cases named
  cases other
  simp only [mk.injEq]
  exact ⟨names, positions, children⟩

end IsBuilt

theorem isBuilt_ofList (entries : List (String × α)) :
    (ofList entries).IsBuilt :=
  isBuilt_empty.addAll entries

/-- To give the names of a container other children is to make a container of
the new entries. -/
theorem IsBuilt.withChildren_eq_ofList {named : Named α} (built : named.IsBuilt)
    {children : List β} (sameLength : children.length = named.children.size) :
    named.withChildren children.toArray =
      ofList (named.names.toList.zip children) := by
  have distinct : ((named.names.toList.zip children).map Prod.fst).Nodup := by
    have short : named.names.toList.length ≤ children.length := by
      simp [sameLength, built.size_eq]
    rw [List.map_fst_zip short, ← built.names_toList]
    exact built.nodup
  refine (built.withChildren (by simpa using sameLength)).eq_of_toList_eq
    (isBuilt_ofList _) ?_
  rw [toList_ofList distinct]
  rfl

end Named

end MaterialGraph
