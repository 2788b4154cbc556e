import MaterialGraph.Proofs.Expression.Layout
import Mathlib.Algebra.Order.Group.Int
import Mathlib.Algebra.Order.Group.Nat
import Mathlib.Algebra.Order.Monoid.Prod

/-!
# What a dump gains with its depth

A dump with a higher limit expands the direct calls at which a lower limit cuts
off, and nothing else is different.  Each of them takes more lines then, or as
many with a shorter text, because the dots are gone.  So the dumps are the same
exactly if no path of the object has more direct calls than the lower limit.
-/

namespace MaterialGraph

section Weight

/-- What a text adds to a dump.  More lines weigh more, and as many lines weigh
more if they are shorter. -/
def textWeight (text : String) : Nat ×ₗ Int :=
  toLex (text.toList.count '\n', -(text.length : Int))

theorem textWeight_append (first second : String) :
    textWeight (first ++ second) = textWeight first + textWeight second := by
  simp only [textWeight, String.toList_append, List.count_append,
    String.length_append, ← toLex_add, Prod.mk_add_mk, Int.natCast_add, Int.neg_add]

/-- The weight of a line with the newline after it. -/
def Line.weight (width : Nat) (line : Line) : Nat ×ₗ Int :=
  textWeight (line.render width) + textWeight "\n"

def linesWeight (width : Nat) : List Line → Nat ×ₗ Int
  | [] => toLex (0, 0)
  | line :: rest => line.weight width + linesWeight width rest

variable (width : Nat)

theorem linesWeight_append (first second : List Line) :
    linesWeight width (first ++ second) =
      linesWeight width first + linesWeight width second := by
  induction first with
  | nil => exact (zero_add _).symm
  | cons line rest induction =>
      rw [List.cons_append, linesWeight, linesWeight, induction, add_assoc]

theorem textWeight_renderAll {lines : List Line} (some : lines ≠ []) :
    textWeight (Line.renderAll width lines) + textWeight "\n" =
      linesWeight width lines := by
  induction lines with
  | nil => exact (some rfl).elim
  | cons line rest induction =>
      cases rest with
      | nil => simp [Line.renderAll, linesWeight, Line.weight]
      | cons next rest =>
          rw [linesWeight, ← induction (List.cons_ne_nil _ _),
            Line.renderAll, List.map_cons, List.map_cons,
            String.intercalate_cons_cons, ← List.map_cons, textWeight_append,
            textWeight_append, Line.weight, ← Line.renderAll, add_assoc]

theorem renderAll_ne_of_lt {lines lines' : List Line} (some : lines ≠ [])
    (some' : lines' ≠ [])
    (less : linesWeight width lines < linesWeight width lines') :
    Line.renderAll width lines ≠ Line.renderAll width lines' := by
  intro same
  rw [← textWeight_renderAll width some, ← textWeight_renderAll width some',
    same] at less
  exact lt_irrefl _ less

/-- A direct call shows less where it is cut off. -/
theorem linesWeight_cut_lt (level : Nat) (opening : String)
    (inner : List Line) :
    linesWeight width [⟨level, opening ++ "(...)"⟩] <
      linesWeight width (bracketed level opening "(" ")" "()" inner) := by
  cases inner with
  | nil =>
      -- as many lines, and the dots are gone
      have less : textWeight "(...)" < textWeight "()" := by decide
      simpa [bracketed, linesWeight, Line.weight, Line.render,
        textWeight_append] using less
  | cons line rest =>
      -- more lines, however short they are
      refine Prod.Lex.lt_iff.mpr (.inl ?_)
      simp [bracketed, linesWeight, Line.weight, Line.render, textWeight]

end Weight

namespace Expression

mutual

/-- The largest number of direct calls on a path. -/
def callDepth : Expression → Nat
  | directCall _ _ arguments => callDepthWithin arguments + 1
  | _ => 0

/-- The largest number of direct calls on a path of an argument. -/
def callDepthWithin : Arguments → Nat
  | [] => 0
  | (_, expression) :: rest => max expression.callDepth (callDepthWithin rest)

end

theorem callDepthWithin_eq (arguments : Arguments) :
    callDepthWithin arguments =
      (arguments.map fun entry => entry.2.callDepth).foldr max 0 := by
  induction arguments with
  | nil => rfl
  | cons entry rest induction =>
      rw [callDepthWithin, induction, List.map_cons, List.foldr_cons]

end Expression

def AnnotationBlock.callDepth (block : AnnotationBlock) : Nat :=
  (block.map fun call =>
    Expression.callDepthWithin call.arguments).foldr max 0

/-- The largest number of direct calls on a path of an object. -/
def Tree.callDepth : Tree → Nat
  | expression root => root.callDepth
  | arguments entries => Expression.callDepthWithin entries
  | annotationCall call => Expression.callDepthWithin call.arguments
  | annotationBlock calls => AnnotationBlock.callDepth calls
  | annotationTable entries =>
      (entries.map fun entry =>
        AnnotationBlock.callDepth entry.2).foldr max 0

/-- Lines with a limit and lines without that limit, of a part of a dump that
reaches down to so many direct calls.  Nothing is gained unless the part goes
below the limit. -/
structure Deepens (width limit reach : Nat) (lines deeper : List Line) :
    Prop where
  same : reach ≤ limit → lines = deeper
  more : limit < reach → linesWeight width lines < linesWeight width deeper

namespace Deepens

variable {width limit reach : Nat} {lines deeper : List Line}

theorem refl (inLimit : reach ≤ limit) : Deepens width limit reach lines lines where
  same _ := rfl
  more below := (Nat.not_lt_of_le inLimit below).elim

theorem le (deepens : Deepens width limit reach lines deeper) :
    linesWeight width lines ≤ linesWeight width deeper := by
  rcases Nat.lt_or_ge limit reach with below | inLimit
  · exact le_of_lt (deepens.more below)
  · exact le_of_eq (congrArg _ (deepens.same inLimit))

theorem append {reach' : Nat} {lines' deeper' : List Line}
    (first : Deepens width limit reach lines deeper)
    (second : Deepens width limit reach' lines' deeper') :
    Deepens width limit (max reach reach') (lines ++ lines')
      (deeper ++ deeper') where
  same inLimit := by
    rw [first.same (Nat.le_trans (Nat.le_max_left _ _) inLimit),
      second.same (Nat.le_trans (Nat.le_max_right _ _) inLimit)]
  more below := by
    rw [linesWeight_append, linesWeight_append]
    rcases lt_max_iff.mp below with belowFirst | belowSecond
    · exact add_lt_add_of_lt_of_le (first.more belowFirst) second.le
    · exact add_lt_add_of_le_of_lt first.le (second.more belowSecond)

theorem bracketed {level : Nat} {opening bracket closing empty : String}
    (inner : Deepens width limit reach lines deeper)
    (sameEmpty : lines.isEmpty = deeper.isEmpty) :
    Deepens width limit reach
      (bracketed level opening bracket closing empty lines)
      (MaterialGraph.bracketed level opening bracket closing empty deeper) where
  same inLimit := by rw [inner.same inLimit]
  more below := by
    have less := inner.more below
    rw [MaterialGraph.bracketed, MaterialGraph.bracketed, ← sameEmpty]
    split
    · rename_i nothing
      rw [List.isEmpty_iff.mp nothing,
        List.isEmpty_iff.mp (sameEmpty.symm.trans nothing)] at less
      exact (lt_irrefl _ less).elim
    · rw [linesWeight_append, linesWeight_append, linesWeight, linesWeight]
      exact add_lt_add_left (add_lt_add_right less _) _

end Deepens

theorem Expression.isEmpty_entryLines (style : DumpStyle) (level calls : Nat)
    (arguments : Arguments) :
    (entryLines style level calls arguments).isEmpty = arguments.isEmpty := by
  rw [← linesOfAll_entryLayouts, Layout.linesOfAll_isEmpty]
  cases arguments <;> rfl

theorem AnnotationBlock.isEmpty_entryLines (style : DumpStyle)
    (level position : Nat) (block : AnnotationBlock) :
    (entryLines style level position block).isEmpty = block.isEmpty := by
  rw [← linesOfAll_entryLayouts, Layout.linesOfAll_isEmpty]
  cases block <;> rfl

theorem AnnotationTable.isEmpty_flatMap_lines (style : DumpStyle) (level : Nat)
    (table : AnnotationTable) :
    (table.flatMap fun entry =>
      AnnotationBlock.lines style entry.1 level entry.2).isEmpty =
        table.isEmpty := by
  rw [← linesOfAll_map_layout, Layout.linesOfAll_isEmpty, List.isEmpty_map]

/-- The higher of two limits cuts off less; zero is no limit. -/
structure IsDeeper (depth deeper : Nat) : Prop where
  limited : depth ≠ 0
  higher : deeper = 0 ∨ depth < deeper

namespace IsDeeper

variable {depth deeper calls : Nat} (isDeeper : IsDeeper depth deeper)
  (style : DumpStyle)

include isDeeper

theorem cuts_eq_false (inLimit : calls ≤ depth) :
    { style with depth := deeper }.cuts calls = false := by
  rcases isDeeper.higher with rfl | higher
  · rfl
  · simp [DumpStyle.cuts, Nat.lt_of_le_of_lt inLimit higher]

theorem cuts_limit : { style with depth := depth }.cuts depth = true := by
  have limited : { style with depth := depth }.depth ≠ 0 := isDeeper.limited
  exact DumpStyle.cuts_depth limited

end IsDeeper

namespace Expression

mutual

theorem deepens_lines {depth deeper : Nat} (isDeeper : IsDeeper depth deeper)
    (width : Nat) (style : DumpStyle) (name : String) (level calls : Nat)
    (inLimit : calls ≤ depth) (expression : Expression) :
    Deepens width depth (calls + expression.callDepth)
      (lines { style with depth := depth } name level calls expression)
      (lines { style with depth := deeper } name level calls expression) := by
  cases expression with
  | constant | call | parameter | temporary => exact .refl inLimit
  | directCall type tag arguments =>
      -- the dumps are alike down to the limit and part at a call that is at it
      have whole := isDeeper.cuts_eq_false style inLimit
      rcases Nat.lt_or_eq_of_le inLimit with inside | rfl
      · have alsoWhole : { style with depth := depth }.cuts calls = false :=
          DumpStyle.cuts_eq_false_of_lt inside
        have inner := deepens_entryLines isDeeper width style (level + 1)
          (calls + 1) inside arguments
        rw [Nat.add_right_comm] at inner
        simp only [lines, whole, alsoWhole, Bool.false_eq_true, if_false]
        exact inner.bracketed (by simp only [isEmpty_entryLines])
      · have cut := isDeeper.cuts_limit style
        simp only [lines, whole, cut, Bool.false_eq_true, if_false, if_true,
          callDepth]
        refine ⟨fun reached => ?_, fun _ => linesWeight_cut_lt ..⟩
        omega

theorem deepens_entryLines {depth deeper : Nat}
    (isDeeper : IsDeeper depth deeper) (width : Nat) (style : DumpStyle)
    (level calls : Nat) (inLimit : calls ≤ depth) (arguments : Arguments) :
    Deepens width depth (calls + callDepthWithin arguments)
      (entryLines { style with depth := depth } level calls arguments)
      (entryLines { style with depth := deeper } level calls arguments) := by
  match arguments with
  | [] => exact .refl inLimit
  | (name, expression) :: rest =>
      have first := deepens_lines isDeeper width style name level calls inLimit
        expression
      have others := deepens_entryLines isDeeper width style level calls inLimit
        rest
      rw [callDepthWithin, ← Nat.add_max_add_left]
      exact first.append others

end

/-- Arguments that are below no direct calls yet. -/
theorem deepens_outerLines {depth deeper : Nat}
    (isDeeper : IsDeeper depth deeper) (width : Nat) (style : DumpStyle)
    (level : Nat) (arguments : Arguments) :
    Deepens width depth (callDepthWithin arguments)
      (entryLines { style with depth := depth } level 0 arguments)
      (entryLines { style with depth := deeper } level 0 arguments) := by
  have outer := deepens_entryLines isDeeper width style level 0 (Nat.zero_le _)
    arguments
  rwa [Nat.zero_add] at outer

end Expression

section Containers

variable {depth deeper : Nat} (isDeeper : IsDeeper depth deeper) (width : Nat)
  (style : DumpStyle)

include isDeeper

theorem Arguments.deepens_lines (name : String) (level : Nat)
    (arguments : Arguments) :
    Deepens width depth (Expression.callDepthWithin arguments)
      (lines { style with depth := depth } name level arguments)
      (lines { style with depth := deeper } name level arguments) :=
  (Expression.deepens_outerLines isDeeper width style _ arguments).bracketed
    (by simp only [Expression.isEmpty_entryLines])

theorem AnnotationCall.deepens_lines (name : String) (level : Nat)
    (call : AnnotationCall) :
    Deepens width depth (Expression.callDepthWithin call.arguments)
      (call.lines { style with depth := depth } name level)
      (call.lines { style with depth := deeper } name level) :=
  (Expression.deepens_outerLines isDeeper width style _
    call.arguments).bracketed (by simp only [Expression.isEmpty_entryLines])

namespace AnnotationBlock

theorem deepens_entryLines (level position : Nat) (block : AnnotationBlock) :
    Deepens width depth (callDepth block)
      (entryLines { style with depth := depth } level position block)
      (entryLines { style with depth := deeper } level position block) := by
  induction block generalizing position with
  | nil => exact .refl (Nat.zero_le _)
  | cons call rest induction =>
      exact (call.deepens_lines isDeeper width style _ level).append
        (induction (position + 1))

theorem deepens_lines (name : String) (level : Nat) (block : AnnotationBlock) :
    Deepens width depth (callDepth block)
      (lines { style with depth := depth } name level block)
      (lines { style with depth := deeper } name level block) :=
  (deepens_entryLines isDeeper width style _ 0 block).bracketed
    (by simp only [isEmpty_entryLines])

end AnnotationBlock

theorem AnnotationTable.deepens_lines (name : String) (level : Nat)
    (table : AnnotationTable) :
    Deepens width depth (Tree.annotationTable table).callDepth
      (lines { style with depth := depth } name level table)
      (lines { style with depth := deeper } name level table) := by
  have blocks : ∀ entries : AnnotationTable,
      Deepens width depth (Tree.annotationTable entries).callDepth
        (entries.flatMap fun entry => AnnotationBlock.lines
          { style with depth := depth } entry.1 (level + 1) entry.2)
        (entries.flatMap fun entry => AnnotationBlock.lines
          { style with depth := deeper } entry.1 (level + 1) entry.2) := by
    intro entries
    induction entries with
    | nil => exact .refl (Nat.zero_le _)
    | cons entry rest induction =>
        exact (AnnotationBlock.deepens_lines isDeeper width style entry.1 _
          entry.2).append induction
  exact (blocks table).bracketed (by simp only [isEmpty_flatMap_lines])

end Containers

namespace Tree

theorem lines_ne_nil (style : DumpStyle) (name : String) (tree : Tree) :
    tree.lines style name ≠ [] := by
  rw [← lines_layout]
  exact Layout.lines_ne_nil 0 _

section Depths

variable {depth deeper : Nat} (style : DumpStyle) (name : String) (tree : Tree)

theorem deepens_lines (isDeeper : IsDeeper depth deeper) (width : Nat) :
    Deepens width depth tree.callDepth
      (tree.lines { style with depth := depth } name)
      (tree.lines { style with depth := deeper } name) := by
  cases tree with
  | expression root =>
      have deepens := Expression.deepens_lines isDeeper width style name 0 0
        (Nat.zero_le _) root
      rwa [Nat.zero_add] at deepens
  | arguments entries =>
      exact Arguments.deepens_lines isDeeper width style name 0 entries
  | annotationCall call => exact call.deepens_lines isDeeper width style name 0
  | annotationBlock calls =>
      exact AnnotationBlock.deepens_lines isDeeper width style name 0 calls
  | annotationTable entries =>
      exact AnnotationTable.deepens_lines isDeeper width style name 0 entries

/-- A higher limit shows no more exactly if the lower one cuts nothing off. -/
theorem dump_eq_dump_iff_of_isDeeper (isDeeper : IsDeeper depth deeper) :
    tree.dump { style with depth := depth } name =
        tree.dump { style with depth := deeper } name ↔
      tree.callDepth ≤ depth := by
  have deepens := tree.deepens_lines style name isDeeper style.indentWidth
  constructor
  · intro same
    by_contra below
    exact renderAll_ne_of_lt style.indentWidth (lines_ne_nil _ _ _)
      (lines_ne_nil _ _ _) (deepens.more (Nat.lt_of_not_le below)) same
  · intro inLimit
    rw [dump, dump, deepens.same inLimit]

/-- The dumps with two limits are the same exactly if the limits are the same up
to the largest number of direct calls on a path. -/
theorem dump_eq_dump_iff (limited : depth ≠ 0) (limited' : deeper ≠ 0) :
    tree.dump { style with depth := depth } name =
        tree.dump { style with depth := deeper } name ↔
      min depth tree.callDepth = min deeper tree.callDepth := by
  rcases Nat.lt_trichotomy depth deeper with less | rfl | greater
  · rw [dump_eq_dump_iff_of_isDeeper style name tree ⟨limited, .inr less⟩]
    omega
  · simp
  · rw [eq_comm, dump_eq_dump_iff_of_isDeeper style name tree
      ⟨limited', .inr greater⟩]
    omega

/-- The dump with a limit is the whole one exactly if the limit is not less than
the largest number of direct calls on a path. -/
theorem dump_eq_dump_unlimited_iff :
    tree.dump { style with depth := depth } name =
        tree.dump { style with depth := 0 } name ↔
      depth = 0 ∨ tree.callDepth ≤ depth := by
  by_cases unlimited : depth = 0
  · simp [unlimited]
  · rw [dump_eq_dump_iff_of_isDeeper style name tree ⟨unlimited, .inl rfl⟩]
    simp [unlimited]

end Depths

end Tree

end MaterialGraph
