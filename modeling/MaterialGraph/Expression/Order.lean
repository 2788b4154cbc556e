import MaterialGraph.Expression.Basic

/-!
# The order of expressions

Expressions are ordered by kind, then by type, then by what they carry.  Lists
of arguments are ordered by size, then entry by entry, where the name decides
before the expression.
-/

namespace MaterialGraph

namespace Expression

mutual

protected def compare (left right : Expression) : Ordering :=
  (Ord.compare left.kind right.kind).then <|
    (Ord.compare left.type right.type).then <|
      match left, right with
      | constant _ value, constant _ value' => Ord.compare value value'
      | call _ tag, call _ tag' => Ord.compare tag tag'
      | parameter _ index, parameter _ index' => Ord.compare index index'
      | directCall _ tag arguments, directCall _ tag' arguments' =>
          (Ord.compare tag tag').then <|
            (Ord.compare arguments.length arguments'.length).then <|
              compareEntries arguments arguments'
      | temporary _ index, temporary _ index' => Ord.compare index index'
      | _, _ => .eq

/-- Entry by entry, as far as both lists have entries. -/
def compareEntries : Arguments → Arguments → Ordering
  | (name, expression) :: rest, (name', expression') :: rest' =>
      (Ord.compare name name').then <|
        (expression.compare expression').then <|
          compareEntries rest rest'
  | _, _ => .eq

end

instance : Ord Expression := ⟨Expression.compare⟩

end Expression

namespace Arguments

protected def compare (left right : Arguments) : Ordering :=
  (Ord.compare left.length right.length).then
    (Expression.compareEntries left right)

end Arguments

end MaterialGraph
