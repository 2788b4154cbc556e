import MaterialGraph.Expression.Wire
import MaterialGraph.Proofs.Value.Encoding

/-!
# The parts of an object

An object can be written whatever it holds, but it can be read back only if
every part of it passes the checks of the reader.  The parts are listed in the
order in which they are written; each condition on an object is a condition on
its parts.
-/

namespace MaterialGraph

/-- What a reader checks. -/
inductive Part
  /-- An expression inside so many direct calls. -/
  | expression (calls : Nat)
  | type (type : ValueType)
  | value (value : Value)
  | tag (tag : Tag)
  | name (name : String)
  /-- The names of the entries in one container. -/
  | names (names : List String)
  /-- The number of annotations in one block. -/
  | count (count : Nat)

namespace Part

/-- Types and values are not of another system. -/
def IsBasic : Part → Prop
  | type written => written.IsBasic
  | value written => written.IsBasic
  | _ => True

/-- Tags are not null. -/
def IsTagged : Part → Prop
  | tag target => target ≠ Tag.null
  | _ => True

/-- Names in one container are distinct. -/
def IsDistinct : Part → Prop
  | names inOrder => inOrder.Nodup
  | _ => True

/-- Expressions are not inside too many direct calls. -/
def IsNested : Part → Prop
  | expression calls => calls ≤ maxNesting
  | _ => True

/-- Lengths and counts fit 64 bits. -/
def IsSized : Part → Prop
  | value written => written.textSize < UInt64.size
  | name written => written.utf8ByteSize < UInt64.size
  | names inOrder => inOrder.length < UInt64.size
  | count number => number < UInt64.size
  | _ => True

/-- Nothing keeps the part from being read back. -/
structure IsStorable (part : Part) : Prop where
  basic : part.IsBasic
  tagged : part.IsTagged
  distinct : part.IsDistinct
  nested : part.IsNested
  sized : part.IsSized

namespace IsStorable

theorem expression {calls : Nat} (nested : calls ≤ maxNesting) :
    IsStorable (.expression calls) :=
  ⟨trivial, trivial, trivial, nested, trivial⟩

theorem type {written : ValueType} (known : written.IsBasic) :
    IsStorable (.type written) :=
  ⟨known, trivial, trivial, trivial, trivial⟩

theorem value {written : Value} (known : written.IsBasic)
    (small : written.textSize < UInt64.size) : IsStorable (.value written) :=
  ⟨known, trivial, trivial, trivial, small⟩

theorem tag {target : Tag} (notNull : target ≠ Tag.null) :
    IsStorable (.tag target) :=
  ⟨trivial, notNull, trivial, trivial, trivial⟩

theorem name {written : String} (small : written.utf8ByteSize < UInt64.size) :
    IsStorable (.name written) :=
  ⟨trivial, trivial, trivial, trivial, small⟩

theorem names {inOrder : List String} (distinct : inOrder.Nodup)
    (small : inOrder.length < UInt64.size) : IsStorable (.names inOrder) :=
  ⟨trivial, trivial, distinct, trivial, small⟩

theorem count {number : Nat} (small : number < UInt64.size) :
    IsStorable (.count number) :=
  ⟨trivial, trivial, trivial, trivial, small⟩

end IsStorable

end Part

namespace Expression

mutual

/-- The parts of an expression inside `calls` direct calls. -/
def parts (calls : Nat) : Expression → List Part
  | constant type value => [.expression calls, .type type, .value value]
  | call type tag => [.expression calls, .type type, .tag tag]
  | parameter type _ => [.expression calls, .type type]
  | directCall type tag arguments =>
      .expression calls :: .type type :: .tag tag ::
        .names (arguments.map Prod.fst) :: entryParts (calls + 1) arguments
  | temporary type _ => [.expression calls, .type type]

/-- The parts of the entries of a list of arguments. -/
def entryParts (calls : Nat) : Arguments → List Part
  | [] => []
  | (name, expression) :: rest =>
      .name name :: (expression.parts calls ++ entryParts calls rest)

end

end Expression

def Arguments.parts (arguments : Arguments) : List Part :=
  .names (arguments.map Prod.fst) :: Expression.entryParts 0 arguments

def AnnotationCall.parts (call : AnnotationCall) : List Part :=
  .name call.name :: Arguments.parts call.arguments

def AnnotationBlock.parts (block : AnnotationBlock) : List Part :=
  .count block.length :: block.flatMap AnnotationCall.parts

def AnnotationTable.parts (table : AnnotationTable) : List Part :=
  .names (table.map Prod.fst) ::
    table.flatMap fun entry => .name entry.1 :: AnnotationBlock.parts entry.2

namespace Tree

def parts : Tree → List Part
  | expression root => root.parts 0
  | arguments entries => Arguments.parts entries
  | annotationCall call => call.parts
  | annotationBlock calls => AnnotationBlock.parts calls
  | annotationTable entries => AnnotationTable.parts entries

/-- Every type and value is basic. -/
def IsBasic (tree : Tree) : Prop :=
  ∀ part ∈ tree.parts, part.IsBasic

/-- No tag is null. -/
def IsTagged (tree : Tree) : Prop :=
  ∀ part ∈ tree.parts, part.IsTagged

/-- The names in each container are distinct. -/
def IsDistinct (tree : Tree) : Prop :=
  ∀ part ∈ tree.parts, part.IsDistinct

/-- No expression is inside more direct calls than a reader accepts. -/
def IsNested (tree : Tree) : Prop :=
  ∀ part ∈ tree.parts, part.IsNested

/-- All lengths and counts fit 64 bits. -/
def IsSized (tree : Tree) : Prop :=
  ∀ part ∈ tree.parts, part.IsSized

/-- Nothing keeps the object from being read back. -/
structure IsStorable (tree : Tree) : Prop where
  basic : tree.IsBasic
  tagged : tree.IsTagged
  distinct : tree.IsDistinct
  nested : tree.IsNested
  sized : tree.IsSized

theorem isStorable_iff {tree : Tree} :
    tree.IsStorable ↔ ∀ part ∈ tree.parts, part.IsStorable := by
  constructor
  · intro storable part member
    exact ⟨storable.basic part member, storable.tagged part member,
      storable.distinct part member, storable.nested part member,
      storable.sized part member⟩
  · intro storable
    exact ⟨fun part member => (storable part member).basic,
      fun part member => (storable part member).tagged,
      fun part member => (storable part member).distinct,
      fun part member => (storable part member).nested,
      fun part member => (storable part member).sized⟩

end Tree

end MaterialGraph
