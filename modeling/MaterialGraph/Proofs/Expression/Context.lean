import MaterialGraph.Proofs.Expression.Order

/-!
# Expressions in a context

A context is an expression with a hole: direct calls around a place that is
left open.  Two expressions that are the same around the hole compare as what
they have in it, because every comparison on the way there is one of something
with itself.
-/

namespace MaterialGraph

/-- Direct calls around a hole, from the outermost inwards. -/
inductive Context
  | hole
  | directCall (type : ValueType) (tag : Tag) (before : Arguments)
      (name : String) (inner : Context) (after : Arguments)

/-- An expression in place of the hole. -/
def Context.fill (expression : Expression) : Context → Expression
  | hole => expression
  | directCall type tag before name inner after =>
      .directCall type tag (before ++ (name, inner.fill expression) :: after)

theorem Expression.compareEntries_self (arguments : Arguments) :
    compareEntries arguments arguments = .eq :=
  Ordering.eq_eq_of_eq_swap (compareEntries_swap arguments arguments).symm

section Around

variable (left right : Expression)

theorem Expression.compareEntries_around (before : Arguments) (name : String)
    (after : Arguments) :
    compareEntries (before ++ (name, left) :: after)
        (before ++ (name, right) :: after) =
      left.compare right := by
  induction before with
  | nil =>
      rw [List.nil_append, List.nil_append, compareEntries,
        Std.ReflOrd.compare_self, compareEntries_self, Ordering.then_eq]
      rfl
  | cons entry rest induction =>
      rw [List.cons_append, List.cons_append, compareEntries,
        Std.ReflOrd.compare_self, compare_self, induction]
      rfl

/-- Lists that differ in the expression of one entry compare as the expressions
do. -/
theorem Arguments.compare_around (before : Arguments) (name : String)
    (after : Arguments) :
    Arguments.compare (before ++ (name, left) :: after)
        (before ++ (name, right) :: after) =
      left.compare right := by
  have sameLength : (before ++ (name, left) :: after).length =
      (before ++ (name, right) :: after).length := by simp
  rw [Arguments.compare, sameLength, Std.ReflOrd.compare_self,
    Expression.compareEntries_around]
  rfl

/-- Two expressions in one context compare as they do by themselves. -/
theorem Context.compare_fill (context : Context) :
    (context.fill left).compare (context.fill right) = left.compare right := by
  induction context with
  | hole => rfl
  | directCall type tag before name inner after induction =>
      rw [fill, fill, Expression.compare_eq_then, Expression.comparePayloads,
        Arguments.compare_around, induction]
      simp [Expression.kind, Expression.type]

end Around

end MaterialGraph
