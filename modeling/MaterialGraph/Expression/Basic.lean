import MaterialGraph.EditError
import MaterialGraph.Expression.Kind
import MaterialGraph.Tag
import MaterialGraph.Value.Basic

/-!
# Expressions as finite trees

An expression is typed and compiled.  It is a constant, a call of a stored
function, a reference to a parameter or to a temporary of the enclosing body,
or a direct call, which carries its arguments.  Here an expression is a value:
it has no identity and shares nothing.  Shared and mutable expressions live in
a store, which unfolds to these trees.

Besides expressions there are lists of named expressions and annotations.  An
annotation is a name with arguments; annotations are grouped in blocks, and a
table of blocks says which entity each block describes.
-/

namespace MaterialGraph

/-- A typed expression.  The arguments of a direct call are named. -/
inductive Expression
  | constant (type : ValueType) (value : Value)
  | call (type : ValueType) (tag : Tag)
  | parameter (type : ValueType) (index : UInt64)
  | directCall (type : ValueType) (tag : Tag)
      (arguments : List (String × Expression))
  | temporary (type : ValueType) (index : UInt64)

/-- Named expressions in order. -/
abbrev Arguments := List (String × Expression)

namespace Expression

def kind : Expression → ExpressionKind
  | constant .. => .constant
  | call .. => .call
  | parameter .. => .parameter
  | directCall .. => .directCall
  | temporary .. => .temporary

def type : Expression → ValueType
  | constant type _ => type
  | call type _ => type
  | parameter type _ => type
  | directCall type _ _ => type
  | temporary type _ => type

instance : Inhabited Expression :=
  ⟨constant (.basic .bool) (.basic (.bool false))⟩

/-- A constant has the type of its value. -/
def ofValue (value : Value) : Expression :=
  constant value.type value

/-- Replace the value of a constant.  The type stays what it was. -/
def withValue (value : Value) : Expression → Expression
  | constant type _ => constant type value
  | other => other

/-- A call of a stored function, which must not be the null tag. -/
def makeCall (type : ValueType) (tag : Tag) : Except EditError Expression :=
  if tag.isNull then .error .invalidTag else .ok (call type tag)

/-- A direct call, whose target must not be the null tag. -/
def makeDirectCall (type : ValueType) (tag : Tag) (arguments : Arguments) :
    Except EditError Expression :=
  if tag.isNull then
    .error .invalidTag
  else
    .ok (directCall type tag arguments)

end Expression

namespace Arguments

/-- Add an argument at the end.  Its name must be new. -/
def add (arguments : Arguments) (name : String) (expression : Expression) :
    Except EditError Arguments :=
  if arguments.any (·.1 == name) then
    .error (.duplicateName name)
  else
    .ok (arguments ++ [(name, expression)])

end Arguments

/-- A name with arguments that describes an entity. -/
structure AnnotationCall where
  name : String
  arguments : Arguments

/-- The annotations of one entity. -/
abbrev AnnotationBlock := List AnnotationCall

/-- Blocks with the names of the entities that they describe. -/
abbrev AnnotationTable := List (String × AnnotationBlock)

namespace AnnotationTable

/-- Add a block at the end.  The name must be new. -/
def add (table : AnnotationTable) (name : String) (block : AnnotationBlock) :
    Except EditError AnnotationTable :=
  if table.any (·.1 == name) then
    .error (.duplicateName name)
  else
    .ok (table ++ [(name, block)])

end AnnotationTable

/-- The five forms of objects that can be stored. -/
inductive Form
  | expression
  | arguments
  | annotationCall
  | annotationBlock
  | annotationTable
  deriving DecidableEq, Repr

/-- An object of any of the five forms. -/
inductive Tree
  | expression (root : Expression)
  | arguments (entries : Arguments)
  | annotationCall (call : AnnotationCall)
  | annotationBlock (calls : AnnotationBlock)
  | annotationTable (entries : AnnotationTable)

namespace Tree

def form : Tree → Form
  | expression _ => .expression
  | arguments _ => .arguments
  | annotationCall _ => .annotationCall
  | annotationBlock _ => .annotationBlock
  | annotationTable _ => .annotationTable

end Tree

end MaterialGraph
