import MaterialGraph.Expression.Basic
import MaterialGraph.Settings

/-!
# Dumps

A dump shows an object line by line.  Each expression has a line of the form
`kind name: type = payload`; what a container holds is shown between its
opening line and a closing line, one level deeper.  Tags are shown by name
where a name is known.

The depth of a dump limits how many direct calls are expanded on any path.  A
direct call beyond the limit is shown as `target(...)`, whatever its arguments
are.  The depth zero is no limit.
-/

namespace MaterialGraph

/-- What a dump is made with, apart from the object and its name. -/
structure DumpStyle where
  names : Option TagNames := none
  showTypes : Bool := true
  indentWidth : Nat := 4
  depth : Nat := 0

/-- A line of a dump: its level of nesting and its text without the spaces. -/
structure Line where
  level : Nat
  text : String
  deriving DecidableEq, Repr

namespace Line

/-- The line with `width` spaces for each level. -/
def render (width : Nat) (line : Line) : String :=
  String.ofList (List.replicate (line.level * width) ' ') ++ line.text

/-- The lines with newlines between them. -/
def renderAll (width : Nat) (lines : List Line) : String :=
  String.intercalate "\n" (lines.map (render width))

end Line

namespace DumpStyle

/-- The name of a tag, or its number. -/
def target (style : DumpStyle) (tag : Tag) : String :=
  match style.names.bind (·.resolve? tag) with
  | some name => name
  | none => tag.text

/-- The part of a line before the payload of an expression of a given kind and
type. -/
def headOf (style : DumpStyle) (name : String) (kind : ExpressionKind)
    (type : ValueType) : String :=
  kind.text ++ " " ++ name ++
    (if style.showTypes then ": " ++ type.text else "") ++ " = "

/-- The part of a line before the payload of an expression. -/
def head (style : DumpStyle) (name : String) (expression : Expression) :
    String :=
  style.headOf name expression.kind expression.type

/-- Whether a direct call below `calls` others is not expanded. -/
def cuts (style : DumpStyle) (calls : Nat) : Bool :=
  style.depth ≠ 0 && style.depth ≤ calls

end DumpStyle

/-- The lines of a container whose opening line starts with `opening`.  An
empty container takes one line. -/
def bracketed (level : Nat) (opening bracket closing empty : String)
    (inner : List Line) : List Line :=
  if inner.isEmpty then
    [⟨level, opening ++ empty⟩]
  else
    ⟨level, opening ++ bracket⟩ :: inner ++ [⟨level, closing⟩]

namespace Expression

mutual

/-- The lines of an expression at a level of nesting below `calls` direct
calls. -/
def lines (style : DumpStyle) (name : String) (level calls : Nat)
    (expression : Expression) : List Line :=
  let head := style.head name expression
  match expression with
  | constant _ value => [⟨level, head ++ value.text⟩]
  | call _ tag => [⟨level, head ++ style.target tag⟩]
  | parameter _ index => [⟨level, head ++ "index " ++ toString index.toNat⟩]
  | temporary _ index => [⟨level, head ++ "index " ++ toString index.toNat⟩]
  | directCall _ tag arguments =>
      let target := style.target tag
      if style.cuts calls then
        [⟨level, head ++ target ++ "(...)"⟩]
      else
        bracketed level (head ++ target) "(" ")" "()"
          (entryLines style (level + 1) (calls + 1) arguments)

/-- The lines of named expressions, one after the other. -/
def entryLines (style : DumpStyle) (level calls : Nat) :
    Arguments → List Line
  | [] => []
  | (name, expression) :: rest =>
      lines style name level calls expression ++
        entryLines style level calls rest

end

end Expression

namespace Arguments

def lines (style : DumpStyle) (name : String) (level : Nat)
    (arguments : Arguments) : List Line :=
  bracketed level ("expression_list " ++ name ++ " = ") "[" "]" "[ ]"
    (Expression.entryLines style (level + 1) 0 arguments)

end Arguments

namespace AnnotationCall

def lines (style : DumpStyle) (name : String) (level : Nat)
    (call : AnnotationCall) : List Line :=
  bracketed level ("annotation " ++ name ++ " = " ++ call.name) "(" ")" "()"
    (Expression.entryLines style (level + 1) 0 call.arguments)

end AnnotationCall

namespace AnnotationBlock

/-- The annotations of a block are named by their positions. -/
def entryLines (style : DumpStyle) (level : Nat) :
    (position : Nat) → AnnotationBlock → List Line
  | _, [] => []
  | position, call :: rest =>
      call.lines style (toString position) level ++
        entryLines style level (position + 1) rest

def lines (style : DumpStyle) (name : String) (level : Nat)
    (block : AnnotationBlock) : List Line :=
  bracketed level ("annotation_block " ++ name ++ " = ") "[" "]" "[ ]"
    (entryLines style (level + 1) 0 block)

end AnnotationBlock

namespace AnnotationTable

def lines (style : DumpStyle) (name : String) (level : Nat)
    (table : AnnotationTable) : List Line :=
  bracketed level ("annotation_list " ++ name ++ " = ") "[" "]" "[ ]"
    (table.flatMap fun entry =>
      AnnotationBlock.lines style entry.1 (level + 1) entry.2)

end AnnotationTable

namespace Tree

/-- The lines of an object that stands by itself. -/
def lines (style : DumpStyle) (name : String) : Tree → List Line
  | expression root => root.lines style name 0 0
  | arguments entries => Arguments.lines style name 0 entries
  | annotationCall call => call.lines style name 0
  | annotationBlock calls => AnnotationBlock.lines style name 0 calls
  | annotationTable entries => AnnotationTable.lines style name 0 entries

/-- The dump of an object under a given name. -/
def dump (style : DumpStyle) (name : String) (tree : Tree) : String :=
  Line.renderAll style.indentWidth (tree.lines style name)

end Tree

namespace Settings

/-- The style of a dump with these settings. -/
def style (settings : Settings) (names : Option TagNames) (depth : UInt64) :
    DumpStyle where
  names := names
  showTypes := settings.showTypes
  indentWidth := settings.indentWidth.toNat
  depth := depth.toNat

end Settings

end MaterialGraph
