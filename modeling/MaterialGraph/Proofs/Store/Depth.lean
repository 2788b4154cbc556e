import MaterialGraph.Proofs.Expression.Depth
import MaterialGraph.Proofs.Store.Cycles
import MaterialGraph.Proofs.Store.Sight
import MaterialGraph.Proofs.Store.Wire
import Mathlib.Data.List.MinMax
import Mathlib.Order.Bounds.Basic

/-!
# When a deeper dump shows more

The dump of an object without cycles is that of its tree, with the same limit.
So more is shown with a higher limit exactly if a way down from the object has
more direct calls than the lower limit.
-/

namespace MaterialGraph

section Outline

variable {style : DumpStyle} {change : Expression → Expression} {calls : Nat}

namespace Expression

theorem entryLines_mapExpressions
    (same : ∀ name level expression,
      (change expression).lines style name level calls =
        expression.lines style name level calls)
    (level : Nat) (arguments : Arguments) :
    entryLines style level calls (Arguments.mapExpressions change arguments) =
      entryLines style level calls arguments := by
  induction arguments with
  | nil => rfl
  | cons entry rest induction =>
      rw [Arguments.mapExpressions] at induction ⊢
      rw [List.map_cons, entryLines, entryLines, same, induction]

/-- The lines of an expression with a limit are those of its outline. -/
theorem lines_outline (limited : style.depth ≠ 0) {remaining : Nat}
    (limit : calls + remaining = style.depth) (name : String) (level : Nat)
    (expression : Expression) :
    (outline remaining expression).lines style name level calls =
      expression.lines style name level calls := by
  induction remaining generalizing calls name level expression with
  | zero =>
      cases expression with
      | constant | call | parameter | temporary => rfl
      | directCall type tag arguments =>
          obtain rfl : calls = style.depth := limit
          simp only [outline, lines, DumpStyle.cuts_depth limited, if_true]
          rfl
  | succ remaining induction =>
      cases expression with
      | constant | call | parameter | temporary => rfl
      | directCall type tag arguments =>
          have next : calls + 1 + remaining = style.depth := by omega
          have entries :=
            entryLines_mapExpressions (induction next) (level + 1) arguments
          simp only [outline, lines]
          rw [← Arguments.mapExpressions, entries]
          rfl

end Expression

variable (same : ∀ name level expression,
  (change expression).lines style name level 0 =
    expression.lines style name level 0)

include same

theorem AnnotationCall.lines_mapExpressions (name : String) (level : Nat)
    (call : AnnotationCall) :
    (call.mapExpressions change).lines style name level =
      call.lines style name level := by
  simp only [lines, mapExpressions, Expression.entryLines_mapExpressions same]

theorem AnnotationBlock.lines_mapExpressions (name : String) (level : Nat)
    (block : AnnotationBlock) :
    lines style name level (mapExpressions change block) =
      lines style name level block := by
  have entries : ∀ position, entryLines style (level + 1) position
      (mapExpressions change block) =
        entryLines style (level + 1) position block := by
    induction block with
    | nil => exact fun _ => rfl
    | cons call rest induction =>
        intro position
        rw [mapExpressions] at induction ⊢
        rw [List.map_cons, entryLines, entryLines,
          call.lines_mapExpressions same, induction]
  rw [lines, lines, entries]

theorem AnnotationTable.lines_mapExpressions (name : String) (level : Nat)
    (table : AnnotationTable) :
    lines style name level (mapExpressions change table) =
      lines style name level table := by
  simp only [lines, mapExpressions, List.flatMap_map,
    AnnotationBlock.lines_mapExpressions same]

theorem Tree.lines_mapExpressions (name : String) (tree : Tree) :
    (tree.mapExpressions change).lines style name = tree.lines style name := by
  cases tree with
  | expression root => exact same name 0 root
  | arguments entries =>
      simp only [mapExpressions, lines, Arguments.lines,
        Expression.entryLines_mapExpressions same]
  | annotationCall call => exact call.lines_mapExpressions same name 0
  | annotationBlock calls =>
      exact AnnotationBlock.lines_mapExpressions same name 0 calls
  | annotationTable entries =>
      exact AnnotationTable.lines_mapExpressions same name 0 entries

end Outline

/-- What a dump does not look at makes no difference to it. -/
theorem Tree.dump_visible (style : DumpStyle) (name : String) (tree : Tree) :
    (tree.visible style).dump style name = tree.dump style name := by
  unfold visible
  split
  · rfl
  · rename_i limited
    rw [dump, dump, lines_mapExpressions
      (Expression.lines_outline limited (Nat.zero_add _))]

section Height

/-- The longest way down goes on from the object to the highest of its parts. -/
theorem Object.Assembles.callDepth_eq {object : Object} {trees : List Tree}
    {tree : Tree} (assembles : object.Assembles trees tree) :
    tree.callDepth = (if object.isDirectCall then 1 else 0) +
      (trees.map Tree.callDepth).foldr max 0 := by
  cases assembles with
  | @leaf node expression alone =>
      cases node with
      | directCall => cases alone
      | constant | call | parameter | temporary =>
          cases alone
          rfl
  | directCall arguments =>
      simp [Tree.callDepth, Expression.callDepth, isDirectCall, Nat.add_comm]
  | list =>
      simp [Tree.callDepth, Expression.callDepthWithin_eq, isDirectCall,
        Function.comp_def]
  | note => simp [Tree.callDepth, isDirectCall]
  | block =>
      simp [Tree.callDepth, AnnotationBlock.callDepth, isDirectCall,
        Function.comp_def]
  | table => simp [Tree.callDepth, isDirectCall, Function.comp_def]

namespace Store

/-- A way down from an object has a number of direct calls, with the object. -/
def HasWay (store : Store) (handle : Handle) (calls : Nat) : Prop :=
  ∃ path, (handle :: path).IsChain store.Owns ∧
    (handle :: path).countP store.isDirectCall = calls

variable {store : Store} {handle : Handle} {tree : Tree}

/-- The height of the tree of an object is the largest number of direct calls
on a way down from it. -/
theorem isGreatest_callDepth (consistent : store.Consistent)
    (unfolds : store.unfolding? handle = some tree) :
    IsGreatest {calls | store.HasWay handle calls} tree.callDepth := by
  induction size : sizeOf tree using Nat.strongRecOn
    generalizing handle tree with
  | _ size induction =>
      subst size
      obtain ⟨object, there, trees, parts, assembles⟩ :=
        (unfolding?_eq_some_iff_assembles consistent).mp unfolds
      have sameCall : store.isDirectCall handle = object.isDirectCall := by
        rw [isDirectCall, there, Option.any_some]
      have owns_iff (part : Handle) :
          store.Owns handle part ↔ part ∈ object.children := by
        rw [Owns, children_of_object?_eq_some there]
      rw [assembles.callDepth_eq]
      constructor
      · by_cases noParts : trees = []
        · refine ⟨[], .singleton handle, ?_⟩
          simp [List.countP_cons, sameCall, noParts]
        · -- the way goes on to a part that is as high as any
          have highest : (trees.map Tree.callDepth).foldr max 0 ∈
              trees.map Tree.callDepth :=
            List.maximum_mem (List.foldr_max_of_ne_nil (by simpa using noParts)).symm
          obtain ⟨tree', member, height⟩ := List.mem_map.mp highest
          have found : some tree' ∈ object.children.map store.unfolding? :=
            parts ▸ List.mem_map_of_mem member
          obtain ⟨part, held, unfoldsPart⟩ := List.mem_map.mp found
          obtain ⟨path, chain, count⟩ :=
            (induction _ (assembles.sizeOf_lt member) unfoldsPart rfl).1
          refine ⟨part :: path, chain.cons_cons ((owns_iff part).mpr held), ?_⟩
          rw [List.countP_cons, count, height, sameCall, Nat.add_comm]
      · rintro calls ⟨path, chain, rfl⟩
        rw [List.countP_cons, sameCall, Nat.add_comm]
        refine Nat.add_le_add_left ?_ _
        cases path with
        | nil => exact Nat.zero_le _
        | cons part rest =>
            obtain ⟨owns, below⟩ := List.isChain_cons_cons.mp chain
            have found : store.unfolding? part ∈ trees.map some :=
              parts ▸ List.mem_map_of_mem ((owns_iff part).mp owns)
            obtain ⟨tree', member, unfoldsPart⟩ := List.mem_map.mp found
            have bound := (induction _ (assembles.sizeOf_lt member)
              unfoldsPart.symm rfl).2 ⟨rest, below, rfl⟩
            exact List.le_max_of_le (List.mem_map_of_mem member) bound

theorem dump_eq_ok_dump (unfolds : store.unfolding? handle = some tree)
    (style : DumpStyle) (name : String) :
    store.dump style name handle = .ok (tree.dump style name) := by
  rw [dump_eq_ok unfolds, tree.dump_visible]

/-- The dumps of an object without cycles with two limits are the same exactly
if the limits are the same up to the largest number of direct calls on a way
down from it, and the dump with a limit is the whole one exactly if no way has
more direct calls than the limit. -/
theorem dump_depth_saturates (operations : List Operation) {handle : Handle}
    (has : (run {} operations).Has handle)
    (acyclic : (run {} operations).AcyclicFrom handle) :
    ∃ height,
      IsGreatest {calls | (run {} operations).HasWay handle calls} height ∧
      ∀ (style : DumpStyle) (name : String),
        (∀ depth, ∃ text, (run {} operations).dump
          { style with depth := depth } name handle = .ok text) ∧
        (∀ depth depth', depth ≠ 0 → depth' ≠ 0 →
          ((run {} operations).dump { style with depth := depth } name handle =
              (run {} operations).dump { style with depth := depth' } name
                handle ↔
            min depth height = min depth' height)) ∧
        ∀ depth,
          ((run {} operations).dump { style with depth := depth } name handle =
              (run {} operations).dump { style with depth := 0 } name handle ↔
            depth = 0 ∨ height ≤ depth) := by
  have consistent := consistent_run operations
  obtain ⟨tree, unfolds⟩ :=
    (exists_unfolding?_iff consistent (closed_run operations)).mpr ⟨has, acyclic⟩
  refine ⟨tree.callDepth, isGreatest_callDepth consistent unfolds, ?_⟩
  intro style name
  simp only [dump_eq_ok_dump unfolds, Except.ok.injEq]
  exact ⟨fun _ => ⟨_, rfl⟩,
    fun _ _ => tree.dump_eq_dump_iff style name,
    fun _ => tree.dump_eq_dump_unlimited_iff style name⟩

theorem dump_depth_saturates_layeredMaterial :
    ∃ handle,
      (run {} [.place layeredMaterial]).Has handle ∧
      (run {} [.place layeredMaterial]).AcyclicFrom handle ∧
      IsGreatest {calls | (run {} [.place layeredMaterial]).HasWay handle calls}
        2 ∧
      (run {} [.place layeredMaterial]).dump { depth := 1 } "m" handle ≠
        (run {} [.place layeredMaterial]).dump { depth := 2 } "m" handle ∧
      (run {} [.place layeredMaterial]).dump { depth := 2 } "m" handle =
        (run {} [.place layeredMaterial]).dump {} "m" handle := by
  have consistent := consistent_run [.place layeredMaterial]
  have unfolds : (run {} [.place layeredMaterial]).unfolding?
      (layeredMaterial.place.run {}).1 = some layeredMaterial :=
    layeredMaterial.unfolding?_place {} isStorable_layeredMaterial.distinct
  have has := has_of_unfolding?_eq_some consistent unfolds
  have acyclic := acyclicFrom_of_unfolding?_eq_some consistent unfolds
  have two : IsGreatest _ 2 := isGreatest_callDepth consistent unfolds
  obtain ⟨height, greatest, dumps⟩ := dump_depth_saturates _ has acyclic
  obtain rfl : height = 2 := greatest.unique two
  obtain ⟨-, limits, whole⟩ := dumps {} "m"
  refine ⟨_, has, acyclic, two, fun same => ?_, (whole 2).mpr (.inr (by decide))⟩
  exact absurd ((limits 1 2 (by decide) (by decide)).mp same) (by decide)

end Store

end Height

end MaterialGraph
