import MaterialGraph.ByteStream.Reader
import MaterialGraph.ByteStream.Writer
import MaterialGraph.Expression.Basic
import MaterialGraph.Named
import MaterialGraph.Value.Wire

/-!
# Expressions and annotations as bytes

An expression is the byte of its kind, its type, and what it carries:

* a constant its value,
* a call its tag,
* a parameter or a temporary its index,
* a direct call its tag and its arguments.

A list of arguments is its size followed by the name and the expression of
each entry.  An annotation is its name and its arguments, a block its size and
its annotations, and a table its size and the name and the block of each
entry.

Any object can be written.  Only objects that a reader can trust are read:
tags are not null, names in one container are distinct, and expressions are
not nested too deeply.

As soon as its parts have been read, an object is made of them.  What is made
depends on a `Maker`; decoding makes trees.
-/

namespace MaterialGraph

open ByteStream MonadRead

/-- How many direct calls may enclose an expression that is read. -/
def maxNesting : Nat := 256

namespace Tag

def encode (tag : Tag) : List UInt8 :=
  encodeVarint tag.number.toNat

/-- A tag that is not null. -/
def scan {m : Type → Type} [Monad m] [MonadExcept DecodeError m]
    [MonadRead m] : m Tag := do
  let number ← scanVarint
  if (Tag.mk number).isNull then
    throw .invalidTag
  else
    return ⟨number⟩

def decode : Read Tag :=
  scan

end Tag

/-- What is made of the parts of each object, and how. -/
structure Maker (m : Type → Type) (Node Args Note Block Table : Type) where
  constant (type : ValueType) (value : Value) : m Node
  call (type : ValueType) (tag : Tag) : m Node
  parameter (type : ValueType) (index : UInt64) : m Node
  directCall (type : ValueType) (tag : Tag) (arguments : Args) : m Node
  temporary (type : ValueType) (index : UInt64) : m Node
  arguments (entries : Named Node) : m Args
  annotationCall (name : String) (arguments : Args) : m Note
  annotationBlock (calls : Array Note) : m Block
  annotationTable (entries : Named Block) : m Table

/-- Make trees. -/
def Maker.trees {m : Type → Type} [Monad m] :
    Maker m Expression Arguments AnnotationCall AnnotationBlock
      AnnotationTable where
  constant type value := pure (.constant type value)
  call type tag := pure (.call type tag)
  parameter type index := pure (.parameter type index)
  directCall type tag arguments := pure (.directCall type tag arguments)
  temporary type index := pure (.temporary type index)
  arguments entries := pure entries.toList
  annotationCall name arguments := pure ⟨name, arguments⟩
  annotationBlock calls := pure calls.toList
  annotationTable entries := pure entries.toList

section Scanning

variable {m : Type → Type} [Monad m] [MonadExcept DecodeError m] [MonadRead m]
  {Node Args Note Block Table : Type}

namespace Named

variable {α β : Type}

/-- `count` entries, each a name and a child, added to those in `done`. -/
def scanEntries (scanChild : m α) : (count : Nat) → (done : Named α) →
    m (Named α)
  | 0, done => return done
  | count + 1, done => do
      note fun _ => .round
      let name ← scanText
      let child ← scanChild
      match done.add name child with
      | .ok extended => scanEntries scanChild count extended
      | .error _ => throw (.duplicateName name)

/-- A container, made of its entries: their number, then the entries. -/
def scan (scanChild : m α) (make : Named α → m β) : m β := do
  let count ← scanVarint
  announce count
  let named ← scanEntries scanChild count.toNat {}
  make named

end Named

variable (maker : Maker m Node Args Note Block Table)

/-- An expression that may be nested in itself `levels - 1` times. -/
def Expression.scanWithin : (levels : Nat) → m Node
  | 0 => do
      note fun reader => .begun (maxNesting + 1) reader.position
      throw (.nestingTooDeep maxNesting)
  | levels + 1 => do
      note fun reader => .begun (maxNesting - levels) reader.position
      let byte ← nextByte
      match ExpressionKind.ofCode? byte with
      | none => throw (.invalidKind byte)
      | some kind =>
          let type ← ValueType.scan
          match kind with
          | .constant => do
              let value ← Value.scan
              maker.constant type value
          | .call => do
              let tag ← Tag.scan
              maker.call type tag
          | .parameter => do
              let index ← scanVarint
              maker.parameter type index
          | .directCall => do
              let tag ← Tag.scan
              let arguments ←
                Named.scan (Expression.scanWithin levels) maker.arguments
              maker.directCall type tag arguments
          | .temporary => do
              let index ← scanVarint
              maker.temporary type index

/-- An expression that no direct call encloses. -/
def Expression.scan : m Node :=
  Expression.scanWithin maker (maxNesting + 1)

def Arguments.scan : m Args :=
  Named.scan (Expression.scan maker) maker.arguments

def AnnotationCall.scan : m Note := do
  let name ← scanText
  let arguments ← Arguments.scan maker
  maker.annotationCall name arguments

def AnnotationBlock.scan : m Block := do
  let count ← scanVarint
  announce count
  let calls ← scanMany (AnnotationCall.scan maker) count.toNat #[]
  maker.annotationBlock calls

def AnnotationTable.scan : m Table :=
  Named.scan (AnnotationBlock.scan maker) maker.annotationTable

/-- An object of a given form. -/
def Form.scan : Form → m Tree
  | expression => Tree.expression <$> Expression.scan .trees
  | arguments => Tree.arguments <$> Arguments.scan .trees
  | annotationCall => Tree.annotationCall <$> AnnotationCall.scan .trees
  | annotationBlock => Tree.annotationBlock <$> AnnotationBlock.scan .trees
  | annotationTable => Tree.annotationTable <$> AnnotationTable.scan .trees

end Scanning

namespace Named

variable {α : Type}

def decodeEntries (decodeChild : Read α) (count : Nat) (done : Named α) :
    Read (Named α) :=
  scanEntries decodeChild count done

theorem decodeEntries_succ (decodeChild : Read α) (count : Nat)
    (done : Named α) :
    decodeEntries decodeChild (count + 1) done = (do
      let name ← readText
      let child ← decodeChild
      match done.add name child with
      | .ok extended => decodeEntries decodeChild count extended
      | .error _ => throw (.duplicateName name)) :=
  rfl

/-- A container as the list of its entries. -/
def decode (decodeChild : Read α) : Read (List (String × α)) :=
  scan decodeChild fun named => pure named.toList

end Named

namespace Expression

mutual

def encode : Expression → List UInt8
  | constant type value =>
      ExpressionKind.constant.code :: (type.encode ++ value.encode)
  | call type tag =>
      ExpressionKind.call.code :: (type.encode ++ tag.encode)
  | parameter type index =>
      ExpressionKind.parameter.code :: (type.encode ++ encodeVarint index.toNat)
  | directCall type tag arguments =>
      ExpressionKind.directCall.code ::
        (type.encode ++ tag.encode ++
          (encodeVarint arguments.length ++ encodeEntries arguments))
  | temporary type index =>
      ExpressionKind.temporary.code :: (type.encode ++ encodeVarint index.toNat)

/-- The entries of a list of arguments, without its size. -/
def encodeEntries : Arguments → List UInt8
  | [] => []
  | (name, expression) :: rest =>
      encodeText name ++ (expression.encode ++ encodeEntries rest)

end

/-- An expression that may be nested in itself `levels - 1` times. -/
def decodeWithin (levels : Nat) : Read Expression :=
  scanWithin .trees levels

def decode : Read Expression :=
  scan .trees

end Expression

namespace Arguments

def encode (arguments : Arguments) : List UInt8 :=
  encodeVarint arguments.length ++ Expression.encodeEntries arguments

def decode : Read Arguments :=
  scan .trees

end Arguments

namespace AnnotationCall

def encode (call : AnnotationCall) : List UInt8 :=
  encodeText call.name ++ Arguments.encode call.arguments

def decode : Read AnnotationCall :=
  scan .trees

end AnnotationCall

namespace AnnotationBlock

def encode (block : AnnotationBlock) : List UInt8 :=
  encodeVarint block.length ++ block.flatMap AnnotationCall.encode

def decode : Read AnnotationBlock :=
  scan .trees

end AnnotationBlock

namespace AnnotationTable

def encode (table : AnnotationTable) : List UInt8 :=
  encodeVarint table.length ++
    table.flatMap fun entry =>
      encodeText entry.1 ++ AnnotationBlock.encode entry.2

def decode : Read AnnotationTable :=
  scan .trees

end AnnotationTable

namespace Tree

def encode : Tree → List UInt8
  | expression root => root.encode
  | arguments entries => Arguments.encode entries
  | annotationCall call => call.encode
  | annotationBlock calls => AnnotationBlock.encode calls
  | annotationTable entries => AnnotationTable.encode entries

end Tree

namespace Form

/-- An object of a given form. -/
def decode (form : Form) : Read Tree :=
  form.scan

end Form

end MaterialGraph
