import MaterialGraph.Proofs.ByteStream.Spelling
import MaterialGraph.Proofs.Expression.Grammar

/-!
# The pieces of an object

The pieces of an object in the order in which they are written.  The numbers
among them are counts, lengths, tags, indices, and the bits of integers and of
floating-point numbers.  Every word for an object spells its pieces, so that two
words for one object differ in the spelling of numbers and in nothing else.
-/

namespace MaterialGraph

open ByteStream

def ValueType.pieces (type : ValueType) : List Piece :=
  [.fixed type.encode]

/-- The pieces of a value without the code of its type. -/
def BasicValue.contentPieces : BasicValue → List Piece
  | bool truth => [.fixed (encodeFlag truth)]
  | int number => [.number number.toUInt32.toNat]
  | float number => [.number number.bits.toNat]
  | color red green blue =>
      [.number red.bits.toNat, .number green.bits.toNat,
        .number blue.bits.toNat]
  | string content => textPieces content

def Value.pieces : Value → List Piece
  | basic value => .fixed [value.type.code] :: value.contentPieces
  | foreign _ => [.fixed [foreignCode]]

def Tag.pieces (tag : Tag) : List Piece :=
  [.number tag.number.toNat]

namespace Expression

mutual

def pieces : Expression → List Piece
  | constant type value =>
      .fixed [ExpressionKind.constant.code] :: (type.pieces ++ value.pieces)
  | call type tag =>
      .fixed [ExpressionKind.call.code] :: (type.pieces ++ tag.pieces)
  | parameter type index =>
      .fixed [ExpressionKind.parameter.code] ::
        (type.pieces ++ [.number index.toNat])
  | directCall type tag arguments =>
      .fixed [ExpressionKind.directCall.code] ::
        (type.pieces ++
          (tag.pieces ++ .number arguments.length :: entryPieces arguments))
  | temporary type index =>
      .fixed [ExpressionKind.temporary.code] ::
        (type.pieces ++ [.number index.toNat])

/-- The pieces of the entries of a list of arguments, without its size. -/
def entryPieces : Arguments → List Piece
  | [] => []
  | (name, expression) :: rest =>
      textPieces name ++ (expression.pieces ++ entryPieces rest)

end

end Expression

def Arguments.pieces (arguments : Arguments) : List Piece :=
  .number arguments.length :: Expression.entryPieces arguments

def AnnotationCall.pieces (call : AnnotationCall) : List Piece :=
  textPieces call.name ++ Arguments.pieces call.arguments

def AnnotationBlock.pieces (block : AnnotationBlock) : List Piece :=
  .number block.length :: block.flatMap AnnotationCall.pieces

def AnnotationTable.pieces (table : AnnotationTable) : List Piece :=
  .number table.length ::
    table.flatMap fun entry =>
      textPieces entry.1 ++ AnnotationBlock.pieces entry.2

def Tree.pieces : Tree → List Piece
  | expression root => root.pieces
  | arguments entries => Arguments.pieces entries
  | annotationCall call => call.pieces
  | annotationBlock calls => AnnotationBlock.pieces calls
  | annotationTable entries => AnnotationTable.pieces entries

section Writing

theorem encodeText_eq_pieces (text : String) :
    encodeText text = (textPieces text).flatMap Piece.encode := by
  simp [encodeText, textPieces, Piece.encode]

theorem ValueType.encode_eq_pieces (type : ValueType) :
    type.encode = type.pieces.flatMap Piece.encode := by
  simp [ValueType.pieces, Piece.encode]

theorem BasicValue.encodeContent_eq_pieces (value : BasicValue) :
    value.encodeContent = value.contentPieces.flatMap Piece.encode := by
  cases value with
  | string content => exact encodeText_eq_pieces content
  | bool | int | float | color =>
      simp [encodeContent, contentPieces, Piece.encode, Binary32.encode]

theorem Value.encode_eq_pieces (value : Value) :
    value.encode = value.pieces.flatMap Piece.encode := by
  cases value with
  | basic value =>
      simp [Value.encode, Value.pieces, Piece.encode,
        BasicValue.encodeContent_eq_pieces]
  | foreign text => simp [Value.encode, Value.pieces, Piece.encode]

theorem Tag.encode_eq_pieces (tag : Tag) :
    tag.encode = tag.pieces.flatMap Piece.encode := by
  simp [Tag.encode, Tag.pieces, Piece.encode]

mutual

theorem Expression.encode_eq_pieces (expression : Expression) :
    expression.encode = expression.pieces.flatMap Piece.encode := by
  cases expression with
  | constant type value =>
      simp [Expression.encode, Expression.pieces, Piece.encode,
        ValueType.encode_eq_pieces, Value.encode_eq_pieces]
  | call type tag =>
      simp [Expression.encode, Expression.pieces, Piece.encode,
        ValueType.encode_eq_pieces, Tag.encode_eq_pieces]
  | parameter type index =>
      simp [Expression.encode, Expression.pieces, Piece.encode,
        ValueType.encode_eq_pieces]
  | directCall type tag arguments =>
      have entries := Expression.encodeEntries_eq_pieces arguments
      simp [Expression.encode, Expression.pieces, Piece.encode,
        ValueType.encode_eq_pieces, Tag.encode_eq_pieces, entries]
  | temporary type index =>
      simp [Expression.encode, Expression.pieces, Piece.encode,
        ValueType.encode_eq_pieces]

theorem Expression.encodeEntries_eq_pieces (arguments : Arguments) :
    Expression.encodeEntries arguments =
      (Expression.entryPieces arguments).flatMap Piece.encode := by
  cases arguments with
  | nil => rfl
  | cons entry rest =>
      obtain ⟨name, expression⟩ := entry
      have first := Expression.encode_eq_pieces expression
      have others := Expression.encodeEntries_eq_pieces rest
      simp only [Expression.encodeEntries, Expression.entryPieces,
        List.flatMap_append, encodeText_eq_pieces, first, others]

end

theorem Arguments.encode_eq_pieces (arguments : Arguments) :
    Arguments.encode arguments =
      (Arguments.pieces arguments).flatMap Piece.encode := by
  rw [Arguments.encode, Expression.encodeEntries_eq_pieces]
  rfl

theorem AnnotationCall.encode_eq_pieces (call : AnnotationCall) :
    call.encode = call.pieces.flatMap Piece.encode := by
  rw [AnnotationCall.encode, encodeText_eq_pieces, Arguments.encode_eq_pieces,
    AnnotationCall.pieces, List.flatMap_append]

theorem AnnotationBlock.encode_eq_pieces (block : AnnotationBlock) :
    AnnotationBlock.encode block =
      (AnnotationBlock.pieces block).flatMap Piece.encode := by
  have each : AnnotationCall.encode =
      fun call => call.pieces.flatMap Piece.encode :=
    funext AnnotationCall.encode_eq_pieces
  rw [AnnotationBlock.encode, AnnotationBlock.pieces, List.flatMap_cons,
    List.flatMap_assoc, each]
  rfl

theorem AnnotationTable.encode_eq_pieces (table : AnnotationTable) :
    AnnotationTable.encode table =
      (AnnotationTable.pieces table).flatMap Piece.encode := by
  rw [AnnotationTable.encode, AnnotationTable.pieces, List.flatMap_cons,
    List.flatMap_assoc]
  simp only [List.flatMap_append, ← encodeText_eq_pieces,
    ← AnnotationBlock.encode_eq_pieces]
  rfl

/-- What is written for an object is written piece by piece. -/
theorem Tree.encode_eq_pieces (tree : Tree) :
    tree.encode = tree.pieces.flatMap Piece.encode := by
  cases tree with
  | expression root => exact root.encode_eq_pieces
  | arguments entries => exact Arguments.encode_eq_pieces entries
  | annotationCall call => exact call.encode_eq_pieces
  | annotationBlock calls => exact AnnotationBlock.encode_eq_pieces calls
  | annotationTable entries => exact AnnotationTable.encode_eq_pieces entries

end Writing

section Words

variable {word : List UInt8}

theorem DenotesType.isSpelling {type : ValueType}
    (denotes : DenotesType word type) : IsSpelling type.pieces word := by
  cases denotes with
  | basic type => exact .ofFixed [type.code]

theorem DenotesContent.isSpelling {value : BasicValue}
    (denotes : DenotesContent word value) :
    IsSpelling value.contentPieces word := by
  cases denotes with
  | bool flag => exact .ofFlag flag
  | int bits => exact .ofNumber bits
  | float bits => exact .ofNumber bits
  | color redBits greenBits blueBits =>
      exact (IsSpelling.ofNumber redBits).append
        ((IsSpelling.ofNumber greenBits).append (.ofNumber blueBits))
  | string text => exact .ofText text

theorem DenotesValue.isSpelling {value : Value}
    (denotes : DenotesValue word value) : IsSpelling value.pieces word := by
  cases denotes with
  | basic content => exact (IsSpelling.ofFixed _).append content.isSpelling

theorem DenotesTag.isSpelling {tag : Tag} (denotes : DenotesTag word tag) :
    IsSpelling tag.pieces word := by
  cases denotes with
  | number number notNull => exact .ofNumber number

mutual

theorem DenotesExpression.isSpelling {word : List UInt8}
    {expression : Expression} {calls : Nat}
    (denotes : DenotesExpression word expression calls) :
    IsSpelling expression.pieces word := by
  cases denotes with
  | constant nested typed valued =>
      exact (IsSpelling.ofFixed _).append
        (typed.isSpelling.append valued.isSpelling)
  | call nested typed tagged =>
      exact (IsSpelling.ofFixed _).append
        (typed.isSpelling.append tagged.isSpelling)
  | parameter nested typed indexed =>
      exact (IsSpelling.ofFixed _).append
        (typed.isSpelling.append (.ofNumber indexed))
  | directCall nested typed tagged denotes =>
      cases denotes with
      | counted size entries distinct =>
          have inside := DenotesEntries.isSpelling entries
          exact (IsSpelling.ofFixed _).append (typed.isSpelling.append
            (tagged.isSpelling.append ((IsSpelling.ofNumber size).append
              inside)))
  | temporary nested typed indexed =>
      exact (IsSpelling.ofFixed _).append
        (typed.isSpelling.append (.ofNumber indexed))

theorem DenotesEntries.isSpelling {word : List UInt8} {arguments : Arguments}
    {calls : Nat}
    (denotes : DenotesEntries DenotesExpression word arguments calls) :
    IsSpelling (Expression.entryPieces arguments) word := by
  cases denotes with
  | nil => exact .nil
  | cons named denotes others =>
      have inside := DenotesExpression.isSpelling denotes
      have outside := DenotesEntries.isSpelling others
      exact (IsSpelling.ofText named).append (inside.append outside)

end

theorem DenotesArguments.isSpelling {arguments : Arguments}
    (denotes : DenotesArguments word arguments) :
    IsSpelling (Arguments.pieces arguments) word := by
  cases denotes with
  | counted size entries distinct =>
      exact (IsSpelling.ofNumber size).append entries.isSpelling

theorem DenotesAnnotationCall.isSpelling {call : AnnotationCall}
    (denotes : DenotesAnnotationCall word call) :
    IsSpelling call.pieces word := by
  cases denotes with
  | mk named denotes =>
      exact (IsSpelling.ofText named).append denotes.isSpelling

theorem DenotesCalls.isSpelling {calls : AnnotationBlock}
    (denotes : DenotesCalls word calls) :
    IsSpelling (calls.flatMap AnnotationCall.pieces) word := by
  induction denotes with
  | nil => exact .nil
  | cons denotes others induction => exact denotes.isSpelling.append induction

theorem DenotesAnnotationBlock.isSpelling {block : AnnotationBlock}
    (denotes : DenotesAnnotationBlock word block) :
    IsSpelling (AnnotationBlock.pieces block) word := by
  cases denotes with
  | counted size denotes =>
      exact (IsSpelling.ofNumber size).append denotes.isSpelling

theorem DenotesEntries.isSpelling_blocks {table : AnnotationTable} {calls : Nat}
    (denotes : DenotesEntries
      (fun word block _ => DenotesAnnotationBlock word block) word table
        calls) :
    IsSpelling (table.flatMap fun entry =>
      textPieces entry.1 ++ AnnotationBlock.pieces entry.2) word := by
  induction denotes with
  | nil => exact .nil
  | cons named denotes others induction =>
      rw [List.flatMap_cons, List.append_assoc]
      exact (IsSpelling.ofText named).append
        (denotes.isSpelling.append induction)

/-- Every word for an object spells the pieces of the object. -/
theorem Denotes.isSpelling {tree : Tree} (denotes : Denotes word tree) :
    IsSpelling tree.pieces word := by
  cases tree with
  | expression root => exact DenotesExpression.isSpelling denotes
  | arguments entries => exact DenotesArguments.isSpelling denotes
  | annotationCall call => exact DenotesAnnotationCall.isSpelling denotes
  | annotationBlock calls => exact DenotesAnnotationBlock.isSpelling denotes
  | annotationTable entries =>
      cases denotes with
      | counted size denotes distinct =>
          exact (IsSpelling.ofNumber size).append denotes.isSpelling_blocks

end Words

end MaterialGraph
