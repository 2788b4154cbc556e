import MaterialGraph.Expression.Dump

/-!
# The layout of a dump

The lines of a dump belong together in parts: a part is one line, or an opening
and a closing line with smaller parts between them, one level deeper.  A path
of positions leads to each part, and a layout is known by what stands at the
ends of all paths.
-/

namespace MaterialGraph

/-- A part of a dump.  Without smaller parts it has its opening line only. -/
structure Layout where
  opening : String
  parts : List Layout
  closing : String

/-- A layout without what is in its parts. -/
structure Frame where
  opening : String
  size : Nat
  closing : String
  deriving DecidableEq, Repr

namespace Layout

/-- Induction over a layout and the parts in it. -/
theorem induct {motive : Layout → Prop}
    (step : ∀ opening parts closing, (∀ part ∈ parts, motive part) →
      motive ⟨opening, parts, closing⟩) (layout : Layout) : motive layout := by
  refine Layout.rec (motive_1 := motive)
    (motive_2 := fun parts => ∀ part ∈ parts, motive part) step ?_ ?_ layout
  · exact nofun
  · intro first rest one others
    exact List.forall_mem_cons.mpr ⟨one, others⟩

def frame (layout : Layout) : Frame :=
  ⟨layout.opening, layout.parts.length, layout.closing⟩

/-- The part at the end of a path. -/
def at? : Layout → List Nat → Option Layout
  | layout, [] => some layout
  | layout, position :: rest => layout.parts[position]?.bind (·.at? rest)

@[simp] theorem at?_nil (layout : Layout) : layout.at? [] = some layout :=
  rfl

theorem at?_cons (layout : Layout) (position : Nat) (rest : List Nat) :
    layout.at? (position :: rest) =
      layout.parts[position]?.bind (·.at? rest) :=
  rfl

/-- Layouts with the same frames everywhere are the same. -/
theorem eq_of_frames {layout layout' : Layout}
    (same : ∀ path, (layout.at? path).map frame =
      (layout'.at? path).map frame) : layout = layout' := by
  induction layout using induct generalizing layout' with
  | step opening parts closing induction =>
      obtain ⟨opening', parts', closing'⟩ := layout'
      have here := same []
      simp only [at?_nil, Option.map_some, Option.some.injEq, frame,
        Frame.mk.injEq] at here
      obtain ⟨rfl, sameLength, rfl⟩ := here
      have sameParts : parts = parts' := by
        refine List.ext_getElem sameLength fun position inside inside' => ?_
        refine induction _ (List.getElem_mem inside) fun path => ?_
        simpa [at?_cons, List.getElem?_eq_getElem inside,
          List.getElem?_eq_getElem inside'] using same (position :: path)
      rw [sameParts]

mutual

/-- The lines of a layout at a level of nesting. -/
def lines (level : Nat) : Layout → List Line
  | ⟨opening, parts, closing⟩ =>
      if parts.isEmpty then
        [⟨level, opening⟩]
      else
        ⟨level, opening⟩ :: linesOfAll (level + 1) parts ++ [⟨level, closing⟩]

/-- The lines of layouts, one after the other. -/
def linesOfAll (level : Nat) : List Layout → List Line
  | [] => []
  | part :: rest => part.lines level ++ linesOfAll level rest

end

/-- The text of a layout, with `width` spaces for each level. -/
def render (width : Nat) (layout : Layout) : String :=
  Line.renderAll width (layout.lines 0)

theorem lines_ne_nil (level : Nat) (layout : Layout) :
    layout.lines level ≠ [] := by
  obtain ⟨opening, parts, closing⟩ := layout
  rw [lines]
  split <;> exact List.cons_ne_nil _ _

theorem linesOfAll_isEmpty (level : Nat) (parts : List Layout) :
    (linesOfAll level parts).isEmpty = parts.isEmpty := by
  cases parts with
  | nil => rfl
  | cons part rest => simp [linesOfAll, lines_ne_nil]

/-- The layout of a container whose opening line starts with `opening`. -/
def bracketed (opening bracket closing empty : String) (parts : List Layout) :
    Layout :=
  if parts.isEmpty then ⟨opening ++ empty, [], ""⟩
  else ⟨opening ++ bracket, parts, closing⟩

@[simp] theorem parts_bracketed (opening bracket closing empty : String)
    (parts : List Layout) :
    (bracketed opening bracket closing empty parts).parts = parts := by
  cases parts <;> rfl

theorem lines_bracketed (level : Nat) (opening bracket closing empty : String)
    (parts : List Layout) :
    (bracketed opening bracket closing empty parts).lines level =
      MaterialGraph.bracketed level opening bracket closing empty
        (linesOfAll (level + 1) parts) := by
  rw [MaterialGraph.bracketed, linesOfAll_isEmpty]
  cases parts <;> rfl

end Layout

namespace DumpStyle

variable {style : DumpStyle} {calls : Nat}

theorem cuts_depth (limited : style.depth ≠ 0) :
    style.cuts style.depth = true := by
  simp [cuts, limited]

theorem cuts_eq_false_of_lt (inside : calls < style.depth) :
    style.cuts calls = false := by
  simp [cuts, inside]

end DumpStyle

namespace Expression

mutual

/-- The layout of an expression below `calls` direct calls. -/
def layout (style : DumpStyle) (name : String) (calls : Nat)
    (expression : Expression) : Layout :=
  let head := style.head name expression
  match expression with
  | constant _ value => ⟨head ++ value.text, [], ""⟩
  | call _ tag => ⟨head ++ style.target tag, [], ""⟩
  | parameter _ index => ⟨head ++ "index " ++ toString index.toNat, [], ""⟩
  | temporary _ index => ⟨head ++ "index " ++ toString index.toNat, [], ""⟩
  | directCall _ tag arguments =>
      let target := style.target tag
      if style.cuts calls then
        ⟨head ++ target ++ "(...)", [], ""⟩
      else
        .bracketed (head ++ target) "(" ")" "()"
          (entryLayouts style (calls + 1) arguments)

/-- The layouts of named expressions, one after the other. -/
def entryLayouts (style : DumpStyle) (calls : Nat) : Arguments → List Layout
  | [] => []
  | (name, expression) :: rest =>
      layout style name calls expression :: entryLayouts style calls rest

end

theorem entryLayouts_eq_map (style : DumpStyle) (calls : Nat)
    (arguments : Arguments) :
    entryLayouts style calls arguments =
      arguments.map fun entry => entry.2.layout style entry.1 calls := by
  induction arguments with
  | nil => rfl
  | cons entry rest induction => rw [entryLayouts, induction, List.map_cons]

mutual

theorem lines_layout (style : DumpStyle) (name : String) (level calls : Nat)
    (expression : Expression) :
    (layout style name calls expression).lines level =
      lines style name level calls expression := by
  cases expression with
  | constant | call | parameter | temporary => rfl
  | directCall type tag arguments =>
      rw [layout, lines]
      split
      · rfl
      · rw [Layout.lines_bracketed, linesOfAll_entryLayouts]

theorem linesOfAll_entryLayouts (style : DumpStyle) (level calls : Nat)
    (arguments : Arguments) :
    Layout.linesOfAll level (entryLayouts style calls arguments) =
      entryLines style level calls arguments := by
  match arguments with
  | [] => rfl
  | (name, expression) :: rest =>
      rw [entryLayouts, entryLines, Layout.linesOfAll, lines_layout,
        linesOfAll_entryLayouts]

end

end Expression

def Arguments.layout (style : DumpStyle) (name : String)
    (arguments : Arguments) : Layout :=
  .bracketed ("expression_list " ++ name ++ " = ") "[" "]" "[ ]"
    (Expression.entryLayouts style 0 arguments)

def AnnotationCall.layout (style : DumpStyle) (name : String)
    (call : AnnotationCall) : Layout :=
  .bracketed ("annotation " ++ name ++ " = " ++ call.name) "(" ")" "()"
    (Expression.entryLayouts style 0 call.arguments)

namespace AnnotationBlock

def entryLayouts (style : DumpStyle) :
    (position : Nat) → AnnotationBlock → List Layout
  | _, [] => []
  | position, call :: rest =>
      call.layout style (toString position) ::
        entryLayouts style (position + 1) rest

def layout (style : DumpStyle) (name : String) (block : AnnotationBlock) :
    Layout :=
  .bracketed ("annotation_block " ++ name ++ " = ") "[" "]" "[ ]"
    (entryLayouts style 0 block)

end AnnotationBlock

def AnnotationTable.layout (style : DumpStyle) (name : String)
    (table : AnnotationTable) : Layout :=
  .bracketed ("annotation_list " ++ name ++ " = ") "[" "]" "[ ]"
    (table.map fun entry => AnnotationBlock.layout style entry.1 entry.2)

theorem AnnotationCall.lines_layout (style : DumpStyle) (name : String)
    (level : Nat) (call : AnnotationCall) :
    (call.layout style name).lines level = call.lines style name level := by
  rw [layout, Layout.lines_bracketed, Expression.linesOfAll_entryLayouts, lines]

theorem AnnotationBlock.linesOfAll_entryLayouts (style : DumpStyle)
    (level position : Nat) (block : AnnotationBlock) :
    Layout.linesOfAll level (entryLayouts style position block) =
      entryLines style level position block := by
  induction block generalizing position with
  | nil => rfl
  | cons call rest induction =>
      rw [entryLayouts, entryLines, Layout.linesOfAll,
        AnnotationCall.lines_layout, induction]

theorem AnnotationBlock.lines_layout (style : DumpStyle) (name : String)
    (level : Nat) (block : AnnotationBlock) :
    (layout style name block).lines level = lines style name level block := by
  rw [layout, Layout.lines_bracketed, linesOfAll_entryLayouts, lines]

theorem AnnotationTable.linesOfAll_map_layout (style : DumpStyle) (level : Nat)
    (table : AnnotationTable) :
    Layout.linesOfAll level
        (table.map fun entry => AnnotationBlock.layout style entry.1 entry.2) =
      table.flatMap fun entry =>
        AnnotationBlock.lines style entry.1 level entry.2 := by
  induction table with
  | nil => rfl
  | cons entry rest induction =>
      rw [List.map_cons, Layout.linesOfAll, AnnotationBlock.lines_layout,
        induction, List.flatMap_cons]

theorem AnnotationTable.lines_layout (style : DumpStyle) (name : String)
    (level : Nat) (table : AnnotationTable) :
    (layout style name table).lines level = lines style name level table := by
  rw [layout, Layout.lines_bracketed, linesOfAll_map_layout, lines]

namespace Tree

/-- The layout of an object that stands by itself. -/
def layout (style : DumpStyle) (name : String) : Tree → Layout
  | expression root => root.layout style name 0
  | arguments entries => Arguments.layout style name entries
  | annotationCall call => call.layout style name
  | annotationBlock calls => AnnotationBlock.layout style name calls
  | annotationTable entries => AnnotationTable.layout style name entries

theorem lines_layout (style : DumpStyle) (name : String) (tree : Tree) :
    (tree.layout style name).lines 0 = tree.lines style name := by
  cases tree with
  | expression root => exact Expression.lines_layout style name 0 0 root
  | arguments entries =>
      rw [layout, Arguments.layout, Layout.lines_bracketed,
        Expression.linesOfAll_entryLayouts, lines, Arguments.lines]
  | annotationCall call => exact call.lines_layout style name 0
  | annotationBlock calls => exact AnnotationBlock.lines_layout style name 0 calls
  | annotationTable entries =>
      exact AnnotationTable.lines_layout style name 0 entries

/-- A dump is the text of the layout. -/
theorem render_layout (style : DumpStyle) (name : String) (tree : Tree) :
    (tree.layout style name).render style.indentWidth =
      tree.dump style name := by
  rw [Layout.render, lines_layout, dump]

end Tree

end MaterialGraph
