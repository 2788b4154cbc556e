import MaterialGraph.Proofs.Store.Ownership
import Mathlib.Logic.ExistsUnique

/-!
# Objects that share nothing

A path says which child is taken at each step on the way down from an object.
In a forest all objects are new, and there is one path to each of them from one
of the roots.  Forests stand side by side if they are made one after the other,
and a new object that holds the roots of a forest is the root of a tree.
-/

namespace MaterialGraph

namespace Store

section Path

variable {Types Values : Type}

/-- The way down from an object to one of its parts. -/
inductive Path (store : Store Types Values) : Handle → List Nat → Handle → Prop
  | here (handle : Handle) : Path store handle [] handle
  | down {owner child part : Handle} {index : Nat} {rest : List Nat}
      (taken : (store.children owner)[index]? = some child)
      (below : Path store child rest part) : Path store owner (index :: rest) part

theorem reaches_iff_exists_path {store : Store Types Values}
    {owner part : Handle} :
    store.Reaches owner part ↔ ∃ path, store.Path owner path part := by
  constructor
  · intro reaches
    induction reaches using Relation.ReflTransGen.head_induction_on with
    | refl => exact ⟨[], .here part⟩
    | head owns _ induction =>
        obtain ⟨rest, below⟩ := induction
        obtain ⟨index, taken⟩ := List.mem_iff_getElem?.mp owns
        exact ⟨index :: rest, .down taken below⟩
  · rintro ⟨path, way⟩
    induction way with
    | here => exact .refl
    | down taken _ induction => exact .head (List.mem_of_getElem? taken) induction

/-- A path leads to one part. -/
theorem Path.unique {store : Store Types Values} {root part part' : Handle}
    {path : List Nat} (way : store.Path root path part)
    (way' : store.Path root path part') : part = part' := by
  induction way with
  | here =>
      cases way'
      rfl
  | down taken _ induction =>
      cases way' with
      | down taken' below' =>
          cases taken.symm.trans taken'
          exact induction below'

end Path

/-- While a store grows, no ways are added below an object whose parts are all
there. -/
theorem Path.of_growsTo {store new : Store} (grows : store.GrowsTo new)
    {root part : Handle} {path : List Nat}
    (known : ∀ {path part}, store.Path root path part → store.Has part)
    (way : new.Path root path part) : store.Path root path part := by
  induction way with
  | here => exact .here _
  | down taken _ induction =>
      rw [grows.children_of_has (known (.here _))] at taken
      exact .down taken (induction fun below => known (.down taken below))

/-- Everything below the roots has been added, and is below one root on one
path. -/
structure IsForest (old new : Store) (roots : List Handle) : Prop where
  fresh : ∀ {index : Nat} {root part : Handle} {path : List Nat},
    roots[index]? = some root → new.Path root path part → ¬old.Has part
  known : ∀ {index : Nat} {root part : Handle} {path : List Nat},
    roots[index]? = some root → new.Path root path part → new.Has part
  single : ∀ {index index' : Nat} {root root' part : Handle}
    {path path' : List Nat},
    roots[index]? = some root → roots[index']? = some root' →
    new.Path root path part → new.Path root' path' part →
      index = index' ∧ path = path'

namespace IsForest

variable {old middle new : Store}

theorem nil (store : Store) : IsForest store store [] where
  fresh := nofun
  known := nofun
  single := nofun

theorem growsTo {roots : List Handle} (forest : IsForest old middle roots)
    (grows : middle.GrowsTo new) : IsForest old new roots := by
  have back : ∀ {index : Nat} {root part : Handle} {path : List Nat},
      roots[index]? = some root → new.Path root path part →
        middle.Path root path part :=
    fun taken way => way.of_growsTo grows (forest.known taken)
  exact
    { fresh := fun taken way => forest.fresh taken (back taken way)
      known := fun taken way => grows.has (forest.known taken (back taken way))
      single := fun taken taken' way way' =>
        forest.single taken taken' (back taken way) (back taken' way') }

section Root

variable {root part : Handle} {path path' : List Nat}
  (tree : IsForest old new [root])

include tree

theorem fresh_root (way : new.Path root path part) : ¬old.Has part :=
  tree.fresh List.getElem?_cons_zero way

theorem known_root (way : new.Path root path part) : new.Has part :=
  tree.known List.getElem?_cons_zero way

theorem single_root (way : new.Path root path part)
    (way' : new.Path root path' part) : path = path' :=
  (tree.single List.getElem?_cons_zero List.getElem?_cons_zero way way').2

end Root

/-- A tree and a forest that is made after it stand side by side. -/
theorem cons {root : Handle} {roots : List Handle}
    (first : IsForest old middle [root]) (later : IsForest middle new roots)
    (grows : old.GrowsTo middle) (growsLater : middle.GrowsTo new) :
    IsForest old new (root :: roots) := by
  have back : ∀ {path : List Nat} {part : Handle}, new.Path root path part →
      middle.Path root path part :=
    fun way => way.of_growsTo growsLater first.known_root
  have apart : ∀ {index : Nat} {root' part : Handle} {path path' : List Nat},
      roots[index]? = some root' → new.Path root path part →
        ¬new.Path root' path' part :=
    fun taken way way' =>
      later.fresh taken way' (first.known_root (back way))
  constructor
  case fresh =>
    intro index found path part taken way has
    cases index with
    | zero =>
        cases taken
        exact first.fresh_root (back way) has
    | succ index => exact later.fresh taken way (grows.has has)
  case known =>
    intro index found path part taken way
    cases index with
    | zero =>
        cases taken
        exact growsLater.has (first.known_root (back way))
    | succ index => exact later.known taken way
  case single =>
    intro index index' found found' path path' part taken taken' way way'
    cases index with
    | zero =>
        cases taken
        cases index' with
        | zero =>
            cases taken'
            exact ⟨rfl, first.single_root (back way) (back way')⟩
        | succ index' => exact (apart taken' way way').elim
    | succ index =>
        cases index' with
        | zero =>
            cases taken'
            exact (apart taken way' way).elim
        | succ index' =>
            obtain ⟨rfl, samePath⟩ := later.single taken taken' way way'
            exact ⟨rfl, samePath⟩

/-- A new object that holds the roots of a forest is the root of a tree. -/
theorem parent {handle : Handle} {object : Object}
    (forest : IsForest old middle object.children) (grows : old.GrowsTo middle)
    (adds : middle.Adds handle object new) : IsForest old new [handle] := by
  have above := forest.growsTo adds.growsTo
  have absent : ∀ {index : Nat} {root : Handle} {path : List Nat},
      object.children[index]? = some root → ¬new.Path root path handle := by
    intro index root path taken way
    have inMiddle := way.of_growsTo adds.growsTo (forest.known taken)
    exact adds.not_has (forest.known taken inMiddle)
  constructor
  case fresh =>
    intro index root path part taken way has
    cases List.mem_singleton.mp (List.mem_of_getElem? taken)
    cases way with
    | here => exact adds.not_has (grows.has has)
    | down taken below =>
        rw [adds.updates.children_self] at taken
        exact above.fresh taken below has
  case known =>
    intro index root path part taken way
    cases List.mem_singleton.mp (List.mem_of_getElem? taken)
    cases way with
    | here => exact adds.updates.has_self
    | down taken below =>
        rw [adds.updates.children_self] at taken
        exact above.known taken below
  case single =>
    intro index index' root root' path path' part taken taken' way way'
    cases List.mem_singleton.mp (List.mem_of_getElem? taken)
    cases List.mem_singleton.mp (List.mem_of_getElem? taken')
    have sameIndex : index = index' := by
      have inside := (List.getElem?_eq_some_iff.mp taken).1
      have inside' := (List.getElem?_eq_some_iff.mp taken').1
      simp only [List.length_singleton] at inside inside'
      omega
    refine ⟨sameIndex, ?_⟩
    cases way with
    | here =>
        cases way' with
        | here => rfl
        | down taken' below' =>
            rw [adds.updates.children_self] at taken'
            exact (absent taken' below').elim
    | down taken below =>
        rw [adds.updates.children_self] at taken
        cases way' with
        | here => exact (absent taken below).elim
        | down taken' below' =>
            rw [adds.updates.children_self] at taken'
            obtain ⟨rfl, rfl⟩ := above.single taken taken' below below'
            rfl

/-- Below the root of a tree everything is new and is found on one path. -/
theorem existsUnique_path {root part : Handle}
    (forest : IsForest old new [root]) (reaches : new.Reaches root part) :
    ¬old.Has part ∧ ∃! path, new.Path root path part := by
  obtain ⟨path, way⟩ := reaches_iff_exists_path.mp reaches
  exact ⟨forest.fresh_root way, path, way,
    fun path' way' => forest.single_root way' way⟩

end IsForest

end Store

end MaterialGraph
