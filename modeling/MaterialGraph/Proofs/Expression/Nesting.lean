import MaterialGraph.Proofs.Expression.Refusal

/-!
# How deep an expression is nested

The height of an expression is the largest number of direct calls, itself
included, that are around an expression inside it.  If nothing else is wrong
with an expression, its height alone decides whether a reader refuses it.
-/

namespace MaterialGraph

namespace Expression

mutual

def height : Expression → Nat
  | directCall _ _ arguments => heightWithin arguments
  | _ => 0

/-- The height of a direct call with the given arguments. -/
def heightWithin : Arguments → Nat
  | [] => 0
  | (_, expression) :: rest => max (expression.height + 1) (heightWithin rest)

end

/-- Nothing but its height keeps the expression from being read back. -/
def IsSound (expression : Expression) : Prop :=
  ∀ calls, ∀ part ∈ expression.parts calls, part.IsNested → part.IsStorable

namespace IsSound

theorem constant {type : ValueType} {value : Value} (known : type.IsBasic)
    (basic : value.IsBasic) (small : value.textSize < UInt64.size) :
    (Expression.constant type value).IsSound := by
  intro calls
  simp only [parts, List.forall_mem_cons]
  exact ⟨.expression, fun _ => .type known, fun _ => .value basic small,
    List.forall_mem_nil _⟩

theorem call {type : ValueType} {tag : Tag} (known : type.IsBasic)
    (notNull : tag ≠ Tag.null) : (Expression.call type tag).IsSound := by
  intro calls
  simp only [parts, List.forall_mem_cons]
  exact ⟨.expression, fun _ => .type known, fun _ => .tag notNull,
    List.forall_mem_nil _⟩

theorem parameter {type : ValueType} (index : UInt64)
    (known : type.IsBasic) : (Expression.parameter type index).IsSound := by
  intro calls
  simp only [parts, List.forall_mem_cons]
  exact ⟨.expression, fun _ => .type known, List.forall_mem_nil _⟩

theorem temporary {type : ValueType} (index : UInt64)
    (known : type.IsBasic) : (Expression.temporary type index).IsSound := by
  intro calls
  simp only [parts, List.forall_mem_cons]
  exact ⟨.expression, fun _ => .type known, List.forall_mem_nil _⟩

theorem directCall {type : ValueType} {tag : Tag} {arguments : Arguments}
    (known : type.IsBasic) (notNull : tag ≠ Tag.null)
    (distinct : (arguments.map Prod.fst).Nodup)
    (few : arguments.length < UInt64.size)
    (small : ∀ entry ∈ arguments, entry.1.utf8ByteSize < UInt64.size)
    (sound : ∀ entry ∈ arguments, entry.2.IsSound) :
    (Expression.directCall type tag arguments).IsSound := by
  have names : (Part.names (arguments.map Prod.fst)).IsStorable := by
    apply Part.IsStorable.names distinct
    rw [List.length_map]
    exact few
  intro calls
  simp only [parts, entryParts_eq_flatMap, List.forall_mem_cons]
  refine ⟨.expression, fun _ => .type known, fun _ => .tag notNull,
    fun _ => names, ?_⟩
  intro part member nested
  obtain ⟨entry, inside, ofEntry⟩ := List.mem_flatMap.mp member
  rcases List.mem_cons.mp ofEntry with name | ofChild
  · rw [name]
    exact .name (small entry inside)
  · exact sound entry inside (calls + 1) part ofChild nested

variable {expression : Expression} {calls : Nat}

theorem tagged (sound : expression.IsSound) :
    ∀ part ∈ expression.parts calls, part.IsTagged := by
  intro part member
  cases part with
  | tag target => exact (sound calls _ member trivial).tagged
  | expression | type | value | name | names | count => trivial

theorem distinct (sound : expression.IsSound) :
    ∀ part ∈ expression.parts calls, part.IsDistinct := by
  intro part member
  cases part with
  | names inOrder => exact (sound calls _ member trivial).distinct
  | expression | type | value | tag | name | count => trivial

end IsSound

/-- Why an expression inside so many direct calls is refused. -/
def tooDeep? (calls : Nat) : Option DecodeError :=
  if calls ≤ maxNesting then none else some (.nestingTooDeep maxNesting)

theorem tooDeep?_or (first second : Nat) :
    (tooDeep? first).or (tooDeep? second) = tooDeep? (max first second) := by
  simp only [tooDeep?, Nat.max_le]
  by_cases firstFits : first ≤ maxNesting
  · simp only [firstFits, if_true, true_and, Option.none_or]
  · simp only [firstFits, if_false, false_and, Option.some_or]

theorem refusalIn?_cons_of_isStorable {part : Part} {parts : List Part}
    (storable : part.IsStorable) :
    refusalIn? (part :: parts) = refusalIn? parts := by
  rw [refusalIn?_cons, Part.refusal?_eq_none storable, Option.none_or]

mutual

/-- Only the expressions among the parts can be refused, and the deepest ones
are inside as many direct calls as the height says. -/
theorem refusalIn?_parts (expression : Expression) {calls : Nat}
    (sound : ∀ part ∈ expression.parts calls, part.IsNested →
      part.IsStorable) :
    refusalIn? (expression.parts calls) =
      tooDeep? (calls + expression.height) := by
  cases expression with
  | directCall type tag arguments =>
      simp only [parts, List.forall_mem_cons] at sound
      rw [parts, refusalIn?_cons,
        refusalIn?_cons_of_isStorable (sound.2.1 trivial),
        refusalIn?_cons_of_isStorable (sound.2.2.1 trivial),
        refusalIn?_cons_of_isStorable (sound.2.2.2.1 trivial)]
      exact refusalIn?_entryParts arguments sound.2.2.2.2
  | constant type value =>
      simp only [parts, List.forall_mem_cons] at sound
      rw [parts, refusalIn?_cons,
        refusalIn?_cons_of_isStorable (sound.2.1 trivial),
        refusalIn?_cons_of_isStorable (sound.2.2.1 trivial)]
      exact Option.or_none
  | call type tag =>
      simp only [parts, List.forall_mem_cons] at sound
      rw [parts, refusalIn?_cons,
        refusalIn?_cons_of_isStorable (sound.2.1 trivial),
        refusalIn?_cons_of_isStorable (sound.2.2.1 trivial)]
      exact Option.or_none
  | parameter type index =>
      simp only [parts, List.forall_mem_cons] at sound
      rw [parts, refusalIn?_cons,
        refusalIn?_cons_of_isStorable (sound.2.1 trivial)]
      exact Option.or_none
  | temporary type index =>
      simp only [parts, List.forall_mem_cons] at sound
      rw [parts, refusalIn?_cons,
        refusalIn?_cons_of_isStorable (sound.2.1 trivial)]
      exact Option.or_none

theorem refusalIn?_entryParts (arguments : Arguments) {calls : Nat}
    (sound : ∀ part ∈ entryParts (calls + 1) arguments, part.IsNested →
      part.IsStorable) :
    (tooDeep? calls).or (refusalIn? (entryParts (calls + 1) arguments)) =
      tooDeep? (calls + heightWithin arguments) := by
  cases arguments with
  | nil => exact Option.or_none
  | cons entry rest =>
      obtain ⟨name, expression⟩ := entry
      simp only [entryParts, List.forall_mem_cons,
        List.forall_mem_append] at sound
      have first := refusalIn?_parts expression sound.2.1
      have others := refusalIn?_entryParts rest sound.2.2
      have deepest : max (calls + 1 + expression.height)
          (calls + heightWithin rest) =
            calls + heightWithin ((name, expression) :: rest) := by
        simp only [heightWithin]
        omega
      rw [entryParts, refusalIn?_cons_of_isStorable (sound.1 trivial),
        refusalIn?_append, first]
      calc (tooDeep? calls).or
            ((tooDeep? (calls + 1 + expression.height)).or
              (refusalIn? (entryParts (calls + 1) rest)))
          = (tooDeep? (calls + 1 + expression.height)).or
              ((tooDeep? calls).or
                (refusalIn? (entryParts (calls + 1) rest))) := by
            rw [← Option.or_assoc, ← Option.or_assoc, tooDeep?_or, tooDeep?_or,
              Nat.max_comm]
        _ = tooDeep? (calls + heightWithin ((name, expression) :: rest)) := by
            rw [others, tooDeep?_or, deepest]

end

end Expression

end MaterialGraph
