import MaterialGraph.Proofs.Expression.Layout
import MaterialGraph.Proofs.Value.OneLine
import Mathlib.Data.Set.Card
import Mathlib.Order.WithBot

/-!
# The rows of a dump

Each line of a dump opens or closes the part at the end of a way.  How far a
line is indented is the length of the way, and what is in it does not depend on
the width of the indentation.  The lines stand in the order of the ways, each
part between its opening and its closing line.
-/

namespace MaterialGraph

/-- What a line is for: it opens what is shown at the end of a way, or closes
it after its parts. -/
inductive Mark
  | opening (way : List Nat)
  | closing (way : List Nat)
  deriving DecidableEq

namespace Mark

def way : Mark → List Nat
  | opening way => way
  | closing way => way

/-- The mark as seen from outside, where the whole is at a position. -/
def under (position : Nat) : Mark → Mark
  | opening way => opening (position :: way)
  | closing way => closing (position :: way)

/-- The place among the lines, in lexicographic order: a part is opened before
and closed after all positions in it. -/
def place : Mark → List (WithTop Nat)
  | opening way => way.map WithTop.some
  | closing way => way.map WithTop.some ++ [⊤]

theorem length_way_under (position : Nat) (mark : Mark) :
    (mark.under position).way.length = mark.way.length + 1 := by
  cases mark <;> rfl

theorem place_under (position : Nat) (mark : Mark) :
    (mark.under position).place = WithTop.some position :: mark.place := by
  cases mark <;> rfl

end Mark

/-- The text begins with something else than a space. -/
def StartsFlush (text : String) : Prop :=
  ∃ first rest, text.toList = first :: rest ∧ first ≠ ' '

theorem StartsFlush.append {text : String} (flush : StartsFlush text)
    (following : String) : StartsFlush (text ++ following) := by
  obtain ⟨first, rest, starts, notSpace⟩ := flush
  exact ⟨first, rest ++ following.toList, by simp [starts], notSpace⟩

/-- A line without its indentation, and what it is for. -/
structure Row where
  mark : Mark
  text : String
  deriving DecidableEq

namespace Row

def under (position : Nat) (row : Row) : Row :=
  { row with mark := row.mark.under position }

/-- The line at a level of nesting. -/
def line (level : Nat) (row : Row) : Line :=
  ⟨level + row.mark.way.length, row.text⟩

/-- The characters of the line, with `width` spaces for each step of the way. -/
def indented (width : Nat) (row : Row) : List Char :=
  List.replicate (width * row.mark.way.length) ' ' ++ row.text.toList

theorem line_under (level position : Nat) (row : Row) :
    (row.under position).line level = row.line (level + 1) := by
  simp only [under, line, Mark.length_way_under]
  congr 1
  omega

end Row

/-- Pieces that are joined by newlines end as the last of them does. -/
theorem getLast?_intercalate_ne {pieces : List (List Char)}
    (none : ∀ piece ∈ pieces, '\n' ∉ piece)
    (some : ∀ piece ∈ pieces, piece ≠ []) :
    (['\n'].intercalate pieces).getLast? ≠ Option.some '\n' := by
  induction pieces with
  | nil => simp
  | cons piece rest induction =>
      rw [List.forall_mem_cons] at none some
      cases rest with
      | nil =>
          intro last
          rw [List.intercalate_singleton] at last
          exact none.1 (List.mem_of_getLast? last)
      | cons next rest =>
          have others := induction none.2 some.2
          have notEmpty : ['\n'].intercalate (next :: rest) ≠ [] := by
            have first := some.2 next List.mem_cons_self
            cases rest <;> simp [first]
          rw [List.intercalate_cons_cons, List.getLast?_append]
          obtain ⟨last, isLast⟩ := Option.ne_none_iff_exists'.mp
            (mt List.getLast?_eq_none_iff.mp notEmpty)
          rwa [isLast, Option.some_or, ← isLast]

/-- A line of a text stands between two newlines, if one is put in front of the
text and one behind it. -/
def HasLine (text line : List Char) : Prop :=
  '\n' :: line ++ ['\n'] <:+: '\n' :: text ++ ['\n']

/-- Each of the pieces that are joined by newlines is a line. -/
theorem hasLine_intercalate {pieces : List (List Char)} {line : List Char}
    (inside : line ∈ pieces) : HasLine (['\n'].intercalate pieces) line := by
  induction pieces with
  | nil => cases inside
  | cons piece rest induction =>
      cases rest with
      | nil =>
          rw [List.mem_singleton.mp inside, List.intercalate_singleton]
          exact List.infix_rfl
      | cons next rest =>
          have split : '\n' :: ['\n'].intercalate (piece :: next :: rest) ++
              ['\n'] = ('\n' :: piece) ++
                ('\n' :: ['\n'].intercalate (next :: rest) ++ ['\n']) := by
            simp [List.intercalate_cons_cons]
          rw [HasLine, split]
          rcases List.mem_cons.mp inside with rfl | later
          · exact ⟨[], ['\n'].intercalate (next :: rest) ++ ['\n'], by simp⟩
          · exact (induction later).trans (List.suffix_append _ _).isInfix

namespace Layout

mutual

def rows : Layout → List Row
  | ⟨opening, parts, closing⟩ =>
      if parts.isEmpty then
        [⟨.opening [], opening⟩]
      else
        ⟨.opening [], opening⟩ :: rowsFrom 0 parts ++ [⟨.closing [], closing⟩]

/-- The rows of parts, of which the first is at a position. -/
def rowsFrom (position : Nat) : List Layout → List Row
  | [] => []
  | part :: rest =>
      part.rows.map (Row.under position) ++ rowsFrom (position + 1) rest

end

mutual

theorem map_line_rows (level : Nat) (layout : Layout) :
    layout.rows.map (Row.line level) = layout.lines level := by
  obtain ⟨opening, parts, closing⟩ := layout
  rw [rows, lines]
  split
  · rfl
  · rw [List.map_append, List.map_cons, map_line_rowsFrom level 0 parts]
    rfl

theorem map_line_rowsFrom (level position : Nat) (parts : List Layout) :
    (rowsFrom position parts).map (Row.line level) =
      linesOfAll (level + 1) parts := by
  match parts with
  | [] => rfl
  | part :: rest =>
      rw [rowsFrom, linesOfAll, List.map_append, List.map_map,
        map_line_rowsFrom level (position + 1) rest,
        ← map_line_rows (level + 1) part]
      congr 2
      funext row
      exact row.line_under level position

end

theorem rows_ne_nil (layout : Layout) : layout.rows ≠ [] := by
  obtain ⟨opening, parts, closing⟩ := layout
  rw [rows]
  split <;> exact List.cons_ne_nil _ _

section Text

variable (width : Nat) {layout : Layout}

theorem toList_render : (layout.render width).toList =
    ['\n'].intercalate (layout.rows.map (Row.indented width)) := by
  rw [render, ← map_line_rows, Line.renderAll, String.toList_intercalate,
    List.map_map, List.map_map]
  congr 1
  refine List.map_congr_left fun row _ => ?_
  simp [Row.line, Line.render, Row.indented, Nat.mul_comm]

variable (oneLine : ∀ row ∈ layout.rows, OneLine row.text)

include oneLine

theorem newline_notMem_of_mem_rows {characters : List Char}
    (member : characters ∈ layout.rows.map (Row.indented width)) :
    '\n' ∉ characters := by
  obtain ⟨row, inside, rfl⟩ := List.mem_map.mp member
  simpa [Row.indented, OneLine] using oneLine row inside

/-- The text of a layout is split at its newlines into its rows, if no row has
a newline of its own. -/
theorem splitOn_render :
    (layout.render width).toList.splitOn '\n' =
      layout.rows.map (Row.indented width) := by
  rw [toList_render]
  apply List.splitOn_intercalate
  · exact fun _ => newline_notMem_of_mem_rows width oneLine
  · simpa using layout.rows_ne_nil

/-- There is no newline at the end, if no row is empty. -/
theorem getLast?_render_ne
    (flush : ∀ row ∈ layout.rows, StartsFlush row.text) :
    (layout.render width).toList.getLast? ≠ some '\n' := by
  rw [toList_render]
  apply getLast?_intercalate_ne
  · exact fun _ => newline_notMem_of_mem_rows width oneLine
  · intro characters member
    obtain ⟨row, inside, rfl⟩ := List.mem_map.mp member
    obtain ⟨first, rest, starts, -⟩ := flush row inside
    simp [Row.indented, starts]

end Text

theorem at?_append (layout : Layout) (way rest : List Nat) :
    layout.at? (way ++ rest) = (layout.at? way).bind (·.at? rest) := by
  induction way generalizing layout with
  | nil => rfl
  | cons position way induction =>
      rw [List.cons_append, at?_cons, at?_cons, Option.bind_assoc]
      congr 1
      funext part
      exact induction part

section Ways

variable {layout : Layout} {row : Row} {way : List Nat} {text : String}

theorem mem_rows_iff :
    row ∈ layout.rows ↔ row = ⟨.opening [], layout.opening⟩ ∨
      row ∈ rowsFrom 0 layout.parts ∨
        layout.parts ≠ [] ∧ row = ⟨.closing [], layout.closing⟩ := by
  obtain ⟨opening, parts, closing⟩ := layout
  cases parts with
  | nil => simp [rows, rowsFrom]
  | cons part rest => simp [rows]

theorem mem_rowsFrom {position : Nat} {parts : List Layout} :
    row ∈ rowsFrom position parts ↔
      ∃ (index : Nat) (part : Layout), parts[index]? = some part ∧
        ∃ inner : Row, inner ∈ part.rows ∧
          row = inner.under (position + index) := by
  induction parts generalizing position with
  | nil => simp [rowsFrom]
  | cons first rest induction =>
      rw [rowsFrom, List.mem_append, List.mem_map, induction]
      constructor
      · rintro (⟨inner, inside, rfl⟩ | ⟨index, part, there, inner, inside, rfl⟩)
        · exact ⟨0, first, rfl, inner, inside, rfl⟩
        · refine ⟨index + 1, part, there, inner, inside, ?_⟩
          rw [Nat.add_right_comm, Nat.add_assoc]
      · rintro ⟨index, part, there, inner, inside, rfl⟩
        cases index with
        | zero =>
            cases there
            exact .inl ⟨inner, inside, rfl⟩
        | succ index =>
            refine .inr ⟨index, part, there, inner, inside, ?_⟩
            rw [Nat.add_right_comm, Nat.add_assoc]

theorem under_mem_rows_iff {position : Nat} {mark : Mark} :
    ⟨mark.under position, text⟩ ∈ layout.rows ↔
      ∃ part, layout.parts[position]? = some part ∧
        ⟨mark, text⟩ ∈ part.rows := by
  rw [mem_rows_iff, mem_rowsFrom]
  constructor
  · rintro (here | ⟨index, part, there, inner, inside, same⟩ | ⟨-, here⟩)
    · cases mark <;> cases here
    · obtain ⟨innerMark, innerText⟩ := inner
      rw [Nat.zero_add] at same
      cases mark <;> cases innerMark <;> cases same <;>
        exact ⟨part, there, inside⟩
    · cases mark <;> cases here
  · rintro ⟨part, there, inside⟩
    exact .inr (.inl ⟨position, part, there, _, inside, by
      rw [Nat.zero_add]; rfl⟩)

theorem way_ne_nil_of_mem_rowsFrom {position : Nat} {parts : List Layout}
    (inside : row ∈ rowsFrom position parts) : row.mark.way ≠ [] := by
  obtain ⟨index, part, -, ⟨mark, text⟩, -, rfl⟩ := mem_rowsFrom.mp inside
  cases mark <;> exact List.cons_ne_nil _ _

theorem exists_at?_cons_iff {position : Nat} {shape : Layout → Prop} :
    (∃ part, layout.at? (position :: way) = some part ∧ shape part) ↔
      ∃ part, layout.parts[position]? = some part ∧
        ∃ inner, part.at? way = some inner ∧ shape inner := by
  simp only [at?_cons, Option.bind_eq_some_iff]
  constructor
  · rintro ⟨inner, ⟨part, there, below⟩, shaped⟩
    exact ⟨part, there, inner, below, shaped⟩
  · rintro ⟨part, there, inner, below, shaped⟩
    exact ⟨inner, ⟨part, there, below⟩, shaped⟩

/-- What is shown at the end of a way is opened in a row. -/
theorem opening_mem_rows_iff :
    ⟨.opening way, text⟩ ∈ layout.rows ↔
      ∃ part, layout.at? way = some part ∧ part.opening = text := by
  induction way generalizing layout with
  | nil =>
      rw [mem_rows_iff]
      constructor
      · rintro (here | inside | ⟨-, here⟩)
        · cases here
          exact ⟨layout, rfl, rfl⟩
        · exact (way_ne_nil_of_mem_rowsFrom inside rfl).elim
        · cases here
      · rintro ⟨_, ⟨⟩, rfl⟩
        exact .inl rfl
  | cons position rest induction =>
      change (⟨(Mark.opening rest).under position, text⟩ : Row) ∈ _ ↔ _
      rw [under_mem_rows_iff, exists_at?_cons_iff]
      simp only [induction]

/-- The row that opens a part is a line of the text. -/
theorem hasLine_render (width : Nat) {opening closing : String}
    {parts : List Layout}
    (taken : layout.at? way = some ⟨opening, parts, closing⟩) :
    HasLine (layout.render width).toList
      (List.replicate (width * way.length) ' ' ++ opening.toList) := by
  have row : (⟨.opening way, opening⟩ : Row) ∈ layout.rows :=
    opening_mem_rows_iff.mpr ⟨_, taken, rfl⟩
  rw [toList_render]
  exact hasLine_intercalate (List.mem_map.mpr ⟨_, row, rfl⟩)

/-- It is closed in another row exactly if it has parts. -/
theorem closing_mem_rows_iff :
    ⟨.closing way, text⟩ ∈ layout.rows ↔
      ∃ part, layout.at? way = some part ∧ part.parts ≠ [] ∧
        part.closing = text := by
  induction way generalizing layout with
  | nil =>
      rw [mem_rows_iff]
      constructor
      · rintro (here | inside | ⟨some, here⟩)
        · cases here
        · exact (way_ne_nil_of_mem_rowsFrom inside rfl).elim
        · cases here
          exact ⟨layout, rfl, some, rfl⟩
      · rintro ⟨_, ⟨⟩, some, rfl⟩
        exact .inr (.inr ⟨some, rfl⟩)
  | cons position rest induction =>
      change (⟨(Mark.closing rest).under position, text⟩ : Row) ∈ _ ↔ _
      rw [under_mem_rows_iff, exists_at?_cons_iff]
      simp only [induction]

/-- Every row stands for what is at the end of its way. -/
theorem exists_at?_of_mem_rows {row : Row} (inside : row ∈ layout.rows) :
    ∃ part, layout.at? row.mark.way = some part := by
  obtain ⟨mark, text⟩ := row
  cases mark with
  | opening way =>
      obtain ⟨part, there, -⟩ := opening_mem_rows_iff.mp inside
      exact ⟨part, there⟩
  | closing way =>
      obtain ⟨part, there, -⟩ := closing_mem_rows_iff.mp inside
      exact ⟨part, there⟩

/-- What stands further along a way is part of what stands before it. -/
theorem exists_parts_of_prefix {way outer : List Nat} {part : Layout}
    (there : layout.at? way = some part) (along : outer <+: way)
    (notAll : outer ≠ way) :
    ∃ whole, layout.at? outer = some whole ∧ whole.parts ≠ [] := by
  obtain ⟨rest, rfl⟩ := along
  rw [at?_append] at there
  obtain ⟨whole, before, after⟩ := Option.bind_eq_some_iff.mp there
  refine ⟨whole, before, ?_⟩
  cases rest with
  | nil => exact (notAll (List.append_nil outer).symm).elim
  | cons position rest =>
      intro none
      rw [at?_cons, none] at after
      cases after

end Ways

section Order

theorem exists_place_of_mem_rowsFrom {position : Nat} {parts : List Layout}
    {row : Row} (inside : row ∈ rowsFrom position parts) :
    ∃ (later : Nat) (rest : List (WithTop Nat)),
      position ≤ later ∧ row.mark.place = WithTop.some later :: rest := by
  obtain ⟨index, part, -, inner, -, rfl⟩ := mem_rowsFrom.mp inside
  exact ⟨position + index, _, Nat.le_add_right _ _, inner.mark.place_under _⟩

theorem pairwise_place_rowsFrom {parts : List Layout}
    (each : ∀ part ∈ parts, part.rows.Pairwise fun row row' =>
      row.mark.place < row'.mark.place) (position : Nat) :
    (rowsFrom position parts).Pairwise fun row row' =>
      row.mark.place < row'.mark.place := by
  induction parts generalizing position with
  | nil => exact .nil
  | cons part rest induction =>
      rw [List.forall_mem_cons] at each
      rw [rowsFrom, List.pairwise_append, List.pairwise_map]
      refine ⟨each.1.imp ?_, induction each.2 _, ?_⟩
      · intro row row' before
        simp only [Row.under, Mark.place_under]
        exact List.cons_lt_cons_iff.mpr (.inr ⟨rfl, before⟩)
      · intro row first row' second
        obtain ⟨inner, -, rfl⟩ := List.mem_map.mp first
        obtain ⟨later, place, after, same⟩ :=
          exists_place_of_mem_rowsFrom second
        rw [same]
        simp only [Row.under, Mark.place_under]
        exact List.cons_lt_cons_iff.mpr
          (.inl (WithTop.coe_lt_coe.mpr (by omega)))

/-- The rows are in the order of their places. -/
theorem pairwise_place_rows (layout : Layout) :
    layout.rows.Pairwise fun row row' => row.mark.place < row'.mark.place := by
  induction layout using induct with
  | step opening parts closing induction =>
      have inner := pairwise_place_rowsFrom induction 0
      rw [rows]
      split
      · exact List.pairwise_singleton _ _
      · rw [List.cons_append, List.pairwise_cons, List.pairwise_append]
        refine ⟨?_, inner, List.pairwise_singleton _ _, ?_⟩
        · intro row member
          rcases List.mem_append.mp member with inside | last
          · obtain ⟨later, place, -, same⟩ := exists_place_of_mem_rowsFrom inside
            rw [same]
            exact List.nil_lt_cons _ _
          · rw [List.mem_singleton.mp last]
            exact List.nil_lt_cons _ _
        · intro row inside last isLast
          obtain ⟨later, place, -, same⟩ := exists_place_of_mem_rowsFrom inside
          rw [List.mem_singleton.mp isLast, same]
          exact List.cons_lt_cons_iff.mpr (.inl (WithTop.coe_lt_top later))

end Order

end Layout

section Counting

/-- There are as many shorter ways along a way as it has steps. -/
theorem encard_shorter (way : List Nat) :
    {outer | outer <+: way ∧ outer ≠ way}.encard = way.length := by
  have shorter : {outer | outer <+: way ∧ outer ≠ way} =
      (way.take ·) '' ↑(Finset.range way.length) := by
    ext outer
    rw [Set.mem_image]
    constructor
    · rintro ⟨along, notAll⟩
      have short : outer.length < way.length :=
        Nat.lt_of_le_of_ne along.length_le (mt along.eq_of_length notAll)
      exact ⟨outer.length, Finset.mem_coe.mpr (Finset.mem_range.mpr short),
        (List.prefix_iff_eq_take.mp along).symm⟩
    · rintro ⟨length, short, rfl⟩
      rw [Finset.mem_coe, Finset.mem_range] at short
      refine ⟨List.take_prefix length way, fun same => ?_⟩
      have sameLength := congrArg List.length same
      rw [List.length_take] at sameLength
      omega
  have distinct : Set.InjOn (way.take ·) ↑(Finset.range way.length) := by
    intro length short length' short' same
    rw [Finset.mem_coe, Finset.mem_range] at short short'
    have sameLength := congrArg List.length same
    simp only [List.length_take] at sameLength
    omega
  rw [shorter, distinct.encard_image, Set.encard_coe_eq_coe_finsetCard,
    Finset.card_range]

/-- Rows in the order of their places are as many as the ways that they open
and the ways that they close. -/
theorem encard_ways {rows : List Row}
    (ordered : rows.Pairwise fun row row' => row.mark.place < row'.mark.place) :
    (rows.length : ℕ∞) =
      {way | ∃ text, ⟨.opening way, text⟩ ∈ rows}.encard +
        {way | ∃ text, ⟨.closing way, text⟩ ∈ rows}.encard := by
  have distinct : (rows.map Row.mark).Nodup := by
    refine List.pairwise_map.mpr (ordered.imp fun before same => ?_)
    rw [same] at before
    exact lt_irrefl _ before
  have marks : {mark | mark ∈ rows.map Row.mark} =
      Mark.opening '' {way | ∃ text, ⟨.opening way, text⟩ ∈ rows} ∪
        Mark.closing '' {way | ∃ text, ⟨.closing way, text⟩ ∈ rows} := by
    ext mark
    constructor
    · intro member
      obtain ⟨⟨mark, text⟩, inside, rfl⟩ := List.mem_map.mp member
      cases mark with
      | opening way => exact .inl ⟨way, ⟨text, inside⟩, rfl⟩
      | closing way => exact .inr ⟨way, ⟨text, inside⟩, rfl⟩
    · rintro (⟨way, ⟨text, inside⟩, rfl⟩ | ⟨way, ⟨text, inside⟩, rfl⟩)
      · exact List.mem_map.mpr ⟨_, inside, rfl⟩
      · exact List.mem_map.mpr ⟨_, inside, rfl⟩
  have apart : Disjoint
      (Mark.opening '' {way | ∃ text, ⟨.opening way, text⟩ ∈ rows})
      (Mark.closing '' {way | ∃ text, ⟨.closing way, text⟩ ∈ rows}) := by
    rw [Set.disjoint_left]
    rintro _ ⟨way, -, rfl⟩ ⟨way', -, same⟩
    cases same
  have openings : Function.Injective Mark.opening := fun _ _ => Mark.opening.inj
  have closings : Function.Injective Mark.closing := fun _ _ => Mark.closing.inj
  rw [← openings.encard_image, ← closings.encard_image,
    ← Set.encard_union_eq apart, ← marks, ← List.coe_toFinset,
    Set.encard_coe_eq_coe_finsetCard, List.toFinset_card_of_nodup distinct,
    List.length_map]

end Counting

end MaterialGraph
