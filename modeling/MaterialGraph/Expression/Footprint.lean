import MaterialGraph.Expression.Basic

/-!
# How much memory an object takes

The footprint is an estimate in bytes.  Every object has a fixed part, texts
take their own length, and every entry of a container takes room for its name,
which is kept twice, and for a reference to its child.  A part that occurs
twice counts twice.
-/

namespace MaterialGraph

namespace Footprint

/-- The fixed part of any object. -/
def object : Nat := 48

/-- The place of an entry in a container, without its name. -/
def slot : Nat := 8

/-- An entry's name in the order of names and in the map of names. -/
def name (text : String) : Nat := 2 * (24 + text.utf8ByteSize)

end Footprint

namespace Value

def footprint : Value → Nat
  | basic (.string content) => 24 + content.utf8ByteSize
  | basic _ => 24
  | foreign shown => 24 + shown.utf8ByteSize

end Value

namespace ValueType

def footprint : ValueType → Nat
  | basic _ => 1
  | foreign shown => 24 + shown.utf8ByteSize

end ValueType

namespace Expression

mutual

def footprint : Expression → Nat
  | constant type value =>
      Footprint.object + type.footprint + value.footprint
  | call type _ => Footprint.object + type.footprint
  | parameter type _ => Footprint.object + type.footprint
  | directCall type _ arguments =>
      Footprint.object + type.footprint +
        (Footprint.object + entriesFootprint arguments)
  | temporary type _ => Footprint.object + type.footprint

def entriesFootprint : Arguments → Nat
  | [] => 0
  | (name, expression) :: rest =>
      Footprint.name name + Footprint.slot + expression.footprint +
        entriesFootprint rest

end

end Expression

namespace Arguments

def footprint (arguments : Arguments) : Nat :=
  Footprint.object + Expression.entriesFootprint arguments

end Arguments

namespace AnnotationCall

def footprint (call : AnnotationCall) : Nat :=
  Footprint.object + call.name.utf8ByteSize + Arguments.footprint call.arguments

end AnnotationCall

namespace AnnotationBlock

def entriesFootprint : AnnotationBlock → Nat
  | [] => 0
  | call :: rest => Footprint.slot + call.footprint + entriesFootprint rest

def footprint (block : AnnotationBlock) : Nat :=
  Footprint.object + entriesFootprint block

end AnnotationBlock

namespace AnnotationTable

def entriesFootprint : AnnotationTable → Nat
  | [] => 0
  | (name, block) :: rest =>
      Footprint.name name + Footprint.slot + AnnotationBlock.footprint block +
        entriesFootprint rest

def footprint (table : AnnotationTable) : Nat :=
  Footprint.object + entriesFootprint table

end AnnotationTable

namespace Tree

def footprint : Tree → Nat
  | expression root => root.footprint
  | arguments entries => Arguments.footprint entries
  | annotationCall call => call.footprint
  | annotationBlock calls => AnnotationBlock.footprint calls
  | annotationTable entries => AnnotationTable.footprint entries

end Tree

end MaterialGraph
