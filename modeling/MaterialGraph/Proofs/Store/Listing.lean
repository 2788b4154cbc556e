import MaterialGraph.Proofs.Store.Rows
import MaterialGraph.Proofs.Store.Title

/-!
# The lines of a dump

A dump has one line for each object that it shows, and one more for each of
them that it opens.  The lines stand in the order of the ways to the objects,
each with the indentation of the opened objects around it, and they are the
same for all widths of the indentation.
-/

namespace MaterialGraph

namespace Store

/-- The ways to the objects that a dump shows. -/
def shownWays (store : Store) (style : DumpStyle) (visit : Visit) :
    Set (List Nat) :=
  {way | ∃ last, store.shown? style visit way = some last}

/-- The ways to those of them that have their parts in lines of their own. -/
def openedWays (store : Store) (style : DumpStyle) (visit : Visit) :
    Set (List Nat) :=
  {way | ∃ last, store.shown? style visit way = some last ∧
    store.Opens style last}

/-- No text that is shown as it is has a newline. -/
def Plain (store : Store) (style : DumpStyle) (visit : Visit) : Prop :=
  ∀ way last object, store.shown? style visit way = some last →
    store.object? last.handle = some object →
      OneLine last.name ∧ ∀ raw ∈ object.rawTexts style, OneLine raw

/-- The rows that show an object and what is in it. -/
structure Listed (store : Store) (style : DumpStyle) (visit : Visit)
    (rows : List Row) : Prop where
  /-- There is an opening row for each object that is shown. -/
  opening : ∀ way text, ⟨.opening way, text⟩ ∈ rows ↔
    ∃ last frame, store.shown? style visit way = some last ∧
      store.frame? style last = some frame ∧ frame.opening = text
  /-- There is a closing row for each of them that is opened. -/
  closing : ∀ way text, ⟨.closing way, text⟩ ∈ rows ↔
    ∃ last frame, store.shown? style visit way = some last ∧
      store.Opens style last ∧ store.frame? style last = some frame ∧
      frame.closing = text
  /-- Parts are in order between the rows of the object that they are in. -/
  ordered : rows.Pairwise fun row row' => row.mark.place < row'.mark.place
  /-- There are no other rows. -/
  length : (rows.length : ℕ∞) = (store.shownWays style visit).encard +
    (store.openedWays style visit).encard
  /-- Each step of the way to a row is into an opened object around it. -/
  enclosed : ∀ row ∈ rows, (row.mark.way.length : ℕ∞) =
    {outer ∈ store.openedWays style visit |
      outer <+: row.mark.way ∧ outer ≠ row.mark.way}.encard
  /-- No row begins with a space. -/
  flush : ∀ row ∈ rows, StartsFlush row.text

variable {store : Store} {style : DumpStyle} {visit last : Visit}
  {way : List Nat} {layout : Layout}

section Frames

variable {object : Object} {frame : Frame}

/-- What a dump shows of an object is part of it. -/
theorem Closed.has_of_visit? (closed : store.Closed)
    (has : store.Has visit.handle)
    (arrived : store.visit? visit way = some last) : store.Has last.handle := by
  induction way generalizing visit with
  | nil =>
      cases arrived
      exact has
  | cons position rest induction =>
      obtain ⟨child, taken, arrivedLater⟩ := Option.bind_eq_some_iff.mp arrived
      refine induction ?_ arrivedLater
      obtain ⟨part, member, rfl⟩ := List.mem_map.mp (List.mem_of_getElem? taken)
      rcases owns_of_mem_namedParts member with owns | ⟨list, -, owns⟩
      · exact closed owns
      · exact closed owns

/-- The frame of an object that is shown. -/
theorem frame?_eq_some (there : store.object? last.handle = some object) :
    store.frame? style last = some (Sight.frame style.showTypes
      ⟨last.name, object.look style,
        if object.isDirectCall && style.cuts last.calls then none
        else some ((store.namedParts last.handle).map Prod.fst)⟩) := by
  rw [frame?, there, Option.map_some]

theorem exists_object_of_frame? (framed : store.frame? style last = some frame) :
    ∃ object, store.object? last.handle = some object := by
  obtain ⟨object, there, -⟩ := Option.map_eq_some_iff.mp framed
  exact ⟨object, there⟩

theorem opens_iff (there : store.object? last.handle = some object) :
    store.Opens style last ↔ store.namedParts last.handle ≠ [] ∧
      (object.isDirectCall && style.cuts last.calls) = false := by
  rw [Opens, isDirectCall, there, Option.any_some, Bool.and_eq_false_iff,
    not_and_or, Bool.not_eq_true, Bool.not_eq_true]

theorem size_eq_zero_of_not_opens
    (framed : store.frame? style last = some frame)
    (closed : ¬store.Opens style last) : frame.size = 0 := by
  obtain ⟨object, there⟩ := exists_object_of_frame? framed
  rw [frame?_eq_some there, Option.some.injEq] at framed
  rw [opens_iff there, not_and_or, not_not, Bool.not_eq_false] at closed
  rcases closed with noParts | cut
  · rw [← framed, noParts]
    split <;> rfl
  · rw [← framed, cut]
    rfl

/-- The frame of an opened object is closed by the bracket of its look. -/
theorem frame_of_opens (there : store.object? last.handle = some object)
    (framed : store.frame? style last = some frame)
    (opens : store.Opens style last) :
    frame.size ≠ 0 ∧ frame.closing = (object.look style).brackets.2 := by
  obtain ⟨some, notCut⟩ := (opens_iff there).mp opens
  obtain ⟨first, rest, parts⟩ := List.exists_cons_of_ne_nil some
  rw [frame?_eq_some there, Option.some.injEq, notCut, parts] at framed
  rw [← framed]
  exact ⟨Nat.succ_ne_zero _, rfl⟩

theorem size_ne_zero_iff (framed : store.frame? style last = some frame) :
    frame.size ≠ 0 ↔ store.Opens style last := by
  constructor
  · exact fun some => Classical.not_not.mp
      fun closed => some (size_eq_zero_of_not_opens framed closed)
  · obtain ⟨object, there⟩ := exists_object_of_frame? framed
    exact fun opens => (frame_of_opens there framed opens).1

/-- Only a container has parts, and it is closed by a bracket. -/
theorem closing_of_opens (framed : store.frame? style last = some frame)
    (opens : store.Opens style last) :
    frame.closing = ")" ∨ frame.closing = "]" := by
  obtain ⟨object, there⟩ := exists_object_of_frame? framed
  rw [(frame_of_opens there framed opens).2]
  have some := opens.1
  cases object with
  | node node =>
      cases node with
      | directCall => exact .inl rfl
      | constant | call | parameter | temporary =>
          simp [namedParts, there] at some
  | note => exact .inl rfl
  | list | block | table => exact .inr rfl

theorem exists_frame_of_opens (opens : store.Opens style last) :
    ∃ frame, store.frame? style last = some frame := by
  cases there : store.object? last.handle with
  | none => exact (opens.1 (by rw [namedParts, there])).elim
  | some object => exact ⟨_, frame?_eq_some there⟩

theorem startsFlush_opening (framed : store.frame? style last = some frame) :
    StartsFlush frame.opening := by
  obtain ⟨object, there⟩ := exists_object_of_frame? framed
  rw [frame?_eq_some there, Option.some.injEq] at framed
  obtain ⟨rest, -, same⟩ := Sight.exists_opening style.showTypes
    ⟨last.name, object.look style, _⟩
  rw [← framed, same]
  exact (Look.startsFlush_title _ _ _).append rest

theorem oneLine_opening (plain : store.Plain style visit)
    (shown : store.shown? style visit way = some last)
    (framed : store.frame? style last = some frame) :
    OneLine frame.opening := by
  obtain ⟨object, there⟩ := exists_object_of_frame? framed
  rw [frame?_eq_some there, Option.some.injEq] at framed
  obtain ⟨rest, oneLineRest, same⟩ := Sight.exists_opening style.showTypes
    ⟨last.name, object.look style, _⟩
  have texts := plain way last object shown there
  rw [← framed, same]
  exact (Object.oneLine_title texts.1 texts.2).append oneLineRest

end Frames

namespace Shows

variable (shows : store.Shows style visit layout) {text : String} {row : Row}

include shows

/-- A dump has some part at a way if it shows such an object there. -/
theorem exists_at?_iff (shape : Frame → Prop) :
    (∃ part, layout.at? way = some part ∧ shape part.frame) ↔
      ∃ last frame, store.shown? style visit way = some last ∧
        store.frame? style last = some frame ∧ shape frame := by
  have same := shows way
  constructor
  · rintro ⟨part, there, shaped⟩
    rw [there, Option.map_some] at same
    obtain ⟨last, shown, framed⟩ := Option.bind_eq_some_iff.mp same.symm
    exact ⟨last, part.frame, shown, framed, shaped⟩
  · rintro ⟨last, frame, shown, framed, shaped⟩
    rw [shown, Option.bind_some, framed] at same
    obtain ⟨part, there, rfl⟩ := Option.map_eq_some_iff.mp same
    exact ⟨part, there, shaped⟩

theorem opening_mem_rows_iff : ⟨.opening way, text⟩ ∈ layout.rows ↔
    ∃ last frame, store.shown? style visit way = some last ∧
      store.frame? style last = some frame ∧ frame.opening = text :=
  Layout.opening_mem_rows_iff.trans
    (shows.exists_at?_iff fun frame => frame.opening = text)

theorem closing_mem_rows_iff : ⟨.closing way, text⟩ ∈ layout.rows ↔
    ∃ last frame, store.shown? style visit way = some last ∧
      store.Opens style last ∧ store.frame? style last = some frame ∧
      frame.closing = text := by
  have sized (part : Layout) : part.parts ≠ [] ↔ part.frame.size ≠ 0 :=
    List.length_eq_zero_iff.not.symm
  simp only [Layout.closing_mem_rows_iff, sized]
  refine (shows.exists_at?_iff fun frame =>
    frame.size ≠ 0 ∧ frame.closing = text).trans ?_
  refine exists_congr fun last => exists_congr fun frame =>
    and_congr_right fun _ => ?_
  constructor
  · rintro ⟨framed, some, closes⟩
    exact ⟨(size_ne_zero_iff framed).mp some, framed, closes⟩
  · rintro ⟨opens, framed, closes⟩
    exact ⟨framed, (size_ne_zero_iff framed).mpr opens, closes⟩

theorem shownWays_eq (closed : store.Closed) (has : store.Has visit.handle) :
    store.shownWays style visit =
      {way | ∃ text, ⟨.opening way, text⟩ ∈ layout.rows} := by
  ext way
  constructor
  · rintro ⟨last, shown⟩
    have hasLast := closed.has_of_visit? has (shown?_eq_some_iff.mp shown).1
    obtain ⟨object, there⟩ := Option.isSome_iff_exists.mp hasLast
    exact ⟨_, shows.opening_mem_rows_iff.mpr
      ⟨last, _, shown, frame?_eq_some there, rfl⟩⟩
  · rintro ⟨text, inside⟩
    obtain ⟨last, frame, shown, -⟩ := shows.opening_mem_rows_iff.mp inside
    exact ⟨last, shown⟩

theorem openedWays_eq : store.openedWays style visit =
    {way | ∃ text, ⟨.closing way, text⟩ ∈ layout.rows} := by
  ext way
  constructor
  · rintro ⟨last, shown, opens⟩
    obtain ⟨frame, framed⟩ := exists_frame_of_opens opens
    exact ⟨_, shows.closing_mem_rows_iff.mpr
      ⟨last, frame, shown, opens, framed, rfl⟩⟩
  · rintro ⟨text, inside⟩
    obtain ⟨last, frame, shown, opens, -⟩ :=
      shows.closing_mem_rows_iff.mp inside
    exact ⟨last, shown, opens⟩

theorem encard_enclosing (inside : row ∈ layout.rows) :
    (row.mark.way.length : ℕ∞) = {outer ∈ store.openedWays style visit |
      outer <+: row.mark.way ∧ outer ≠ row.mark.way}.encard := by
  rw [← encard_shorter]
  congr 1
  ext outer
  refine ⟨fun shorter => ⟨?_, shorter⟩, fun enclosing => enclosing.2⟩
  obtain ⟨part, there⟩ := Layout.exists_at?_of_mem_rows inside
  obtain ⟨whole, before, some⟩ :=
    Layout.exists_parts_of_prefix there shorter.1 shorter.2
  rw [shows.openedWays_eq]
  exact ⟨_, Layout.closing_mem_rows_iff.mpr ⟨whole, before, some, rfl⟩⟩

theorem startsFlush_of_mem_rows (inside : row ∈ layout.rows) :
    StartsFlush row.text := by
  obtain ⟨mark, text⟩ := row
  cases mark with
  | opening way =>
      obtain ⟨last, frame, -, framed, rfl⟩ :=
        shows.opening_mem_rows_iff.mp inside
      exact startsFlush_opening framed
  | closing way =>
      obtain ⟨last, frame, -, opens, framed, rfl⟩ :=
        shows.closing_mem_rows_iff.mp inside
      rcases closing_of_opens framed opens with same | same
      · exact ⟨')', [], congrArg String.toList same, by decide⟩
      · exact ⟨']', [], congrArg String.toList same, by decide⟩

theorem oneLine_of_mem_rows (plain : store.Plain style visit)
    (inside : row ∈ layout.rows) : OneLine row.text := by
  obtain ⟨mark, text⟩ := row
  cases mark with
  | opening way =>
      obtain ⟨last, frame, shown, framed, rfl⟩ :=
        shows.opening_mem_rows_iff.mp inside
      exact oneLine_opening plain shown framed
  | closing way =>
      obtain ⟨last, frame, -, opens, framed, rfl⟩ :=
        shows.closing_mem_rows_iff.mp inside
      rcases closing_of_opens framed opens with same | same
      · exact same ▸ (by decide : OneLine ")")
      · exact same ▸ (by decide : OneLine "]")

theorem listed (closed : store.Closed) (has : store.Has visit.handle) :
    store.Listed style visit layout.rows where
  opening _ _ := shows.opening_mem_rows_iff
  closing _ _ := shows.closing_mem_rows_iff
  ordered := layout.pairwise_place_rows
  length := by
    rw [shows.shownWays_eq closed has, shows.openedWays_eq]
    exact encard_ways layout.pairwise_place_rows
  enclosed _ := shows.encard_enclosing
  flush _ := shows.startsFlush_of_mem_rows

end Shows

/-- The rows that show an object do not depend on the width of the indentation,
and the lines of each dump are these rows, indented.  There is no newline at
the end. -/
theorem dump_lines (operations : List Operation) {handle : Handle}
    (has : (run {} operations).Has handle) {style : DumpStyle}
    (ends : style.depth = 0 → (run {} operations).AcyclicFrom handle)
    {name : String}
    (plain : (run {} operations).Plain style ⟨name, 0, handle⟩) :
    ∃ rows : List Row,
      (run {} operations).Listed style ⟨name, 0, handle⟩ rows ∧
      ∀ width, ∃ text,
        (run {} operations).dump { style with indentWidth := width } name
          handle = .ok text ∧
        text.toList.splitOn '\n' = rows.map (Row.indented width) ∧
        text.toList.getLast? ≠ some '\n' := by
  have closed := closed_run operations
  obtain ⟨layout, dumped, shows⟩ :=
    exists_dump_shows (consistent_run operations) closed has ends name
  have listed := shows.listed closed has
  have oneLine : ∀ row ∈ layout.rows, OneLine row.text :=
    fun _ => shows.oneLine_of_mem_rows plain
  refine ⟨layout.rows, listed, fun width => ⟨_, dumped width, ?_, ?_⟩⟩
  · exact Layout.splitOn_render width oneLine
  · exact Layout.getLast?_render_ne width oneLine listed.flush

/-- What a dump comes to in a direct call with one constant. -/
theorem visit?_callOfConstant {id child : NodeId} {type type' : ValueType}
    {tag : Tag} {list : ListId} {value : Value} {named : Named NodeId}
    {argument : String}
    (call : store.node? id = some (.directCall type tag list))
    (arguments : store.list? list = some named)
    (entries : named.toList = [(argument, child)])
    (constant : store.node? child = some (.constant type' value))
    (name : String) :
    ∀ way, store.visit? ⟨name, 0, .node id⟩ way =
      match way with
      | [] => some ⟨name, 0, .node id⟩
      | [0] => some ⟨argument, 1, .node child⟩
      | _ => none := by
  have callThere := object?_node_eq_some_iff.mpr call
  have constantThere := object?_node_eq_some_iff.mpr constant
  have inCall : store.below ⟨name, 0, .node id⟩ = [⟨argument, 1, .node child⟩] := by
    simp [below, namedParts, callThere, namedArguments, arguments, entries,
      isDirectCall, Object.isDirectCall]
  have inConstant : store.below ⟨argument, 1, .node child⟩ = [] := by
    simp [below, namedParts, constantThere]
  rintro (_ | ⟨_ | position, _ | ⟨next, rest⟩⟩)
  · rfl
  · rw [visit?, inCall]
    rfl
  · rw [visit?, inCall, List.getElem?_cons_zero, Option.bind_some, visit?,
      inConstant]
    rfl
  · rw [visit?, inCall]
    rfl
  · rw [visit?, inCall]
    rfl

/-- A direct call with a text that has a newline. -/
def callOfText : List Operation :=
  [.newConstant (.basic (.string "a\nb")), .newList,
    .newDirectCall (.basic .material) ⟨7⟩ (.list ⟨0⟩),
    .add (.list ⟨0⟩) (some "x") (.node ⟨0⟩)]

theorem dump_lines_callOfText :
    (run {} callOfText).Has (.node ⟨1⟩) ∧
      (({} : DumpStyle).depth = 0 →
        (run {} callOfText).AcyclicFrom (.node ⟨1⟩)) ∧
      (run {} callOfText).Plain {} ⟨"m", 0, .node ⟨1⟩⟩ ∧
      ∃ rows : List Row,
        (run {} callOfText).Listed {} ⟨"m", 0, .node ⟨1⟩⟩ rows ∧
        rows.length = 3 ∧
        ∀ width, ∃ text,
          (run {} callOfText).dump { indentWidth := width } "m" (.node ⟨1⟩) =
            .ok text ∧
          text.toList.splitOn '\n' = rows.map (Row.indented width) ∧
          text.toList.getLast? ≠ some '\n' := by
  let before := run {} (callOfText.take 3)
  obtain ⟨extended, result, -, entries⟩ := exists_apply_add
    Named.consistent_empty (rfl : before.list? ⟨0⟩ = some {})
    (rfl : before.node? ⟨0⟩ =
      some (.constant (.basic .string) (.basic (.string "a\nb"))))
    (List.not_mem_nil : "x" ∉ [])
  have ran : run {} callOfText = before.setList ⟨0⟩ extended :=
    run_singleton_of_ok result
  have call : (run {} callOfText).node? ⟨1⟩ =
      some (.directCall (.basic .material) ⟨7⟩ ⟨0⟩) := by rw [ran]; rfl
  have constant : (run {} callOfText).node? ⟨0⟩ =
      some (.constant (.basic .string) (.basic (.string "a\nb"))) := by
    rw [ran]
    rfl
  have arguments : (run {} callOfText).list? ⟨0⟩ = some extended := by
    rw [ran]
    rfl
  have has : (run {} callOfText).Has (.node ⟨1⟩) :=
    has_of_object?_eq_some (object?_node_eq_some_iff.mpr call)
  have unfolds : (run {} callOfText).unfolding? (.node ⟨1⟩) =
      some (.expression (.directCall (.basic .material) ⟨7⟩ [("x", _)])) :=
    unfolding?_directCall_of_single call arguments entries (by rw [ran]; rfl)
  have ends (_ : ({} : DumpStyle).depth = 0) :=
    acyclicFrom_of_unfolding?_eq_some (consistent_run callOfText) unfolds
  have plain : (run {} callOfText).Plain {} ⟨"m", 0, .node ⟨1⟩⟩ := by
    intro way last object shown there
    have arrived := (shown?_eq_some_iff.mp shown).1
    rw [visit?_callOfConstant call arguments entries constant] at arrived
    split at arrived
    · cases arrived
      rw [object?_node_eq_some_iff.mpr call] at there
      cases there
      decide
    · cases arrived
      rw [object?_node_eq_some_iff.mpr constant] at there
      cases there
      decide
    · cases arrived
  obtain ⟨rows, listed, lines⟩ := dump_lines callOfText has ends plain
  refine ⟨has, ends, plain, rows, listed, ?_, lines⟩
  obtain ⟨text, dumped, split, -⟩ := lines 4
  rw [dump_eq_ok_dump unfolds, Except.ok.injEq] at dumped
  rw [← List.length_map (Row.indented 4), ← split, ← dumped]
  rfl

end Store

end MaterialGraph
