import MaterialGraph.Proofs.Expression.Parts

/-!
# The grammar of stored objects

Which words denote which objects, for each of the five forms.  Tags are not
null, names in one container are distinct, and an expression is inside at most
`maxNesting` direct calls, counted from the root expression or from the list or
annotation whose arguments it is among.
-/

namespace MaterialGraph

open ByteStream

/-- A number that is not that of the null tag. -/
inductive DenotesTag : List UInt8 → Tag → Prop
  | number {word : List UInt8} {tag : Tag}
      (number : DenotesNumber word tag.number.toNat)
      (notNull : tag ≠ Tag.null) :
      DenotesTag word tag

/-- Words for objects inside a number of direct calls. -/
abbrev NestedLanguage (α : Type) := List UInt8 → α → (calls : Nat) → Prop

/-- Entries one after the other, each a name and a word for a child. -/
inductive DenotesEntries {α : Type} (child : NestedLanguage α) :
    List UInt8 → List (String × α) → (calls : Nat) → Prop
  | nil {calls : Nat} : DenotesEntries child [] [] calls
  | cons {calls : Nat} {nameWord childWord rest : List UInt8} {name : String}
      {object : α} {entries : List (String × α)}
      (named : DenotesText nameWord name)
      (denotes : child childWord object calls)
      (others : DenotesEntries child rest entries calls) :
      DenotesEntries child (nameWord ++ (childWord ++ rest))
        ((name, object) :: entries) calls

/-- A count and so many entries whose names are distinct. -/
inductive DenotesNamed {α : Type} (child : NestedLanguage α) :
    List UInt8 → List (String × α) → (calls : Nat) → Prop
  | counted {calls : Nat} {count word : List UInt8}
      {entries : List (String × α)} (size : DenotesNumber count entries.length)
      (denotes : DenotesEntries child word entries calls)
      (distinct : (entries.map Prod.fst).Nodup) :
      DenotesNamed child (count ++ word) entries calls

/-- The code of the kind of an expression, its type, and what it carries. -/
inductive DenotesExpression : List UInt8 → Expression → (calls : Nat) → Prop
  | constant {calls : Nat} {typeWord valueWord : List UInt8} {type : ValueType}
      {value : Value} (nested : calls ≤ maxNesting)
      (typed : DenotesType typeWord type)
      (valued : DenotesValue valueWord value) :
      DenotesExpression
        (ExpressionKind.constant.code :: (typeWord ++ valueWord))
        (.constant type value) calls
  | call {calls : Nat} {typeWord tagWord : List UInt8} {type : ValueType}
      {tag : Tag} (nested : calls ≤ maxNesting)
      (typed : DenotesType typeWord type) (tagged : DenotesTag tagWord tag) :
      DenotesExpression (ExpressionKind.call.code :: (typeWord ++ tagWord))
        (.call type tag) calls
  | parameter {calls : Nat} {typeWord indexWord : List UInt8} {type : ValueType}
      {index : UInt64} (nested : calls ≤ maxNesting)
      (typed : DenotesType typeWord type)
      (indexed : DenotesNumber indexWord index.toNat) :
      DenotesExpression
        (ExpressionKind.parameter.code :: (typeWord ++ indexWord))
        (.parameter type index) calls
  | directCall {calls : Nat} {typeWord tagWord word : List UInt8}
      {type : ValueType} {tag : Tag} {arguments : Arguments}
      (nested : calls ≤ maxNesting) (typed : DenotesType typeWord type)
      (tagged : DenotesTag tagWord tag)
      (denotes : DenotesNamed DenotesExpression word arguments (calls + 1)) :
      DenotesExpression
        (ExpressionKind.directCall.code :: (typeWord ++ (tagWord ++ word)))
        (.directCall type tag arguments) calls
  | temporary {calls : Nat} {typeWord indexWord : List UInt8} {type : ValueType}
      {index : UInt64} (nested : calls ≤ maxNesting)
      (typed : DenotesType typeWord type)
      (indexed : DenotesNumber indexWord index.toNat) :
      DenotesExpression
        (ExpressionKind.temporary.code :: (typeWord ++ indexWord))
        (.temporary type index) calls

/-- The arguments of an annotation, or a list on its own. -/
def DenotesArguments (word : List UInt8) (arguments : Arguments) : Prop :=
  DenotesNamed DenotesExpression word arguments 0

/-- A name and arguments. -/
inductive DenotesAnnotationCall : List UInt8 → AnnotationCall → Prop
  | mk {nameWord word : List UInt8} {call : AnnotationCall}
      (named : DenotesText nameWord call.name)
      (denotes : DenotesArguments word call.arguments) :
      DenotesAnnotationCall (nameWord ++ word) call

/-- Annotations one after the other. -/
inductive DenotesCalls : List UInt8 → AnnotationBlock → Prop
  | nil : DenotesCalls [] []
  | cons {word rest : List UInt8} {call : AnnotationCall}
      {calls : AnnotationBlock} (denotes : DenotesAnnotationCall word call)
      (others : DenotesCalls rest calls) :
      DenotesCalls (word ++ rest) (call :: calls)

/-- A count and so many annotations. -/
inductive DenotesAnnotationBlock : List UInt8 → AnnotationBlock → Prop
  | counted {count word : List UInt8} {calls : AnnotationBlock}
      (size : DenotesNumber count calls.length)
      (denotes : DenotesCalls word calls) :
      DenotesAnnotationBlock (count ++ word) calls

/-- A count and so many blocks under distinct names. -/
def DenotesAnnotationTable (word : List UInt8) (table : AnnotationTable) :
    Prop :=
  DenotesNamed (fun word block _ => DenotesAnnotationBlock word block) word
    table 0

/-- The words for objects of any form. -/
def Denotes (word : List UInt8) : Tree → Prop
  | .expression root => DenotesExpression word root 0
  | .arguments entries => DenotesArguments word entries
  | .annotationCall call => DenotesAnnotationCall word call
  | .annotationBlock calls => DenotesAnnotationBlock word calls
  | .annotationTable entries => DenotesAnnotationTable word entries

end MaterialGraph
