import MaterialGraph.Expression.Order
import MaterialGraph.Proofs.Expression.Parts
import MaterialGraph.Proofs.Value.Order

/-!
# The order of trees

Comparing two expressions or two lists the other way round gives the opposite
result, whatever they hold.  Among those that hold basic types and values only,
the order is total and ties are equalities.

The results for expressions and for the entries of lists are proved together.
Entries are only compared as far as both lists go, so that what is said about
them needs lists of one size.
-/

namespace MaterialGraph

namespace ExpressionKind

theorem code_injective {kind kind' : ExpressionKind}
    (same : kind.code = kind'.code) :
    kind = kind' := by
  cases kind <;> cases kind' <;> first | rfl | cases same

instance : Std.TransOrd ExpressionKind :=
  inferInstanceAs (Std.TransCmp (compareOn code))

instance : Std.LawfulEqOrd ExpressionKind where
  compare_self {kind} := Std.ReflOrd.compare_self (a := kind.code)
  eq_of_compare same := code_injective (Std.LawfulEqOrd.eq_of_compare same)

end ExpressionKind

namespace Tag

instance : Std.TransOrd Tag :=
  inferInstanceAs (Std.TransCmp (compareOn number))

instance : Std.LawfulEqOrd Tag where
  compare_self {tag} := Std.ReflOrd.compare_self (a := tag.number)
  eq_of_compare same := congrArg mk (Std.LawfulEqOrd.eq_of_compare same)

end Tag

namespace Expression

/-- What decides between two expressions of one kind and one type. -/
def comparePayloads : Expression → Expression → Ordering
  | constant _ value, constant _ value' => Ord.compare value value'
  | call _ tag, call _ tag' => Ord.compare tag tag'
  | parameter _ index, parameter _ index' => Ord.compare index index'
  | directCall _ tag arguments, directCall _ tag' arguments' =>
      (Ord.compare tag tag').then (Arguments.compare arguments arguments')
  | temporary _ index, temporary _ index' => Ord.compare index index'
  | _, _ => .eq

theorem compare_eq_then (left right : Expression) :
    left.compare right =
      (Ord.compare left.kind right.kind).then
        ((Ord.compare left.type right.type).then
          (comparePayloads left right)) := by
  cases left <;> cases right <;>
    simp only [Expression.compare, comparePayloads, Arguments.compare]

theorem type_mem_parts (expression : Expression) (calls : Nat) :
    Part.type expression.type ∈ expression.parts calls := by
  cases expression <;> simp [parts, type]

mutual

theorem compare_swap (left right : Expression) :
    (left.compare right).swap = right.compare left := by
  have payloads :
      (comparePayloads left right).swap = comparePayloads right left := by
    cases left with
    | constant type value =>
        cases right with
        | constant type' value' => exact value.compare_swap value'
        | call | parameter | directCall | temporary => rfl
    | call type tag =>
        cases right with
        | call type' tag' => exact swap_compare tag tag'
        | constant | parameter | directCall | temporary => rfl
    | parameter type index =>
        cases right with
        | parameter type' index' => exact swap_compare index index'
        | constant | call | directCall | temporary => rfl
    | directCall type tag arguments =>
        cases right with
        | directCall type' tag' arguments' =>
            simp only [comparePayloads, Arguments.compare, Ordering.swap_then,
              swap_compare, compareEntries_swap arguments arguments']
        | constant | call | parameter | temporary => rfl
    | temporary type index =>
        cases right with
        | temporary type' index' => exact swap_compare index index'
        | constant | call | parameter | directCall => rfl
  simp only [compare_eq_then, Ordering.swap_then, swap_compare, payloads]

theorem compareEntries_swap (left right : Arguments) :
    (compareEntries left right).swap = compareEntries right left := by
  cases left with
  | nil => simp [compareEntries]
  | cons entry rest =>
      cases right with
      | nil => simp [compareEntries]
      | cons entry' rest' =>
          obtain ⟨name, expression⟩ := entry
          obtain ⟨name', expression'⟩ := entry'
          simp only [compareEntries, Ordering.swap_then, swap_compare,
            compare_swap expression expression', compareEntries_swap rest rest']

end

theorem compare_self (expression : Expression) :
    expression.compare expression = .eq :=
  Ordering.eq_eq_of_eq_swap (compare_swap expression expression).symm

mutual

theorem eq_of_compare (left right : Expression) (calls calls' : Nat)
    (known : ∀ part ∈ left.parts calls, part.IsBasic)
    (known' : ∀ part ∈ right.parts calls', part.IsBasic)
    (tie : left.compare right = .eq) : left = right := by
  rw [compare_eq_then, Ordering.then_eq_eq, Ordering.then_eq_eq] at tie
  obtain ⟨sameKind, sameType, samePayload⟩ := tie
  replace sameKind := Std.LawfulEqOrd.eq_of_compare sameKind
  replace sameType : left.type = right.type :=
    (ValueType.compare_eq_iff (known _ (left.type_mem_parts calls))
      (known' _ (right.type_mem_parts calls'))).mp sameType
  -- no two payloads of different kinds are left to be compared
  cases left with
  | constant type value =>
      cases right with
      | constant type' value' =>
          cases sameType
          rw [(Value.compare_eq_iff (known (.value value) (by simp [parts]))
            (known' (.value value') (by simp [parts]))).mp samePayload]
      | call | parameter | directCall | temporary => cases sameKind
  | call type tag =>
      cases right with
      | call type' tag' =>
          cases sameType
          rw [Std.LawfulEqOrd.eq_of_compare samePayload]
      | constant | parameter | directCall | temporary => cases sameKind
  | parameter type index =>
      cases right with
      | parameter type' index' =>
          cases sameType
          rw [Std.LawfulEqOrd.eq_of_compare samePayload]
      | constant | call | directCall | temporary => cases sameKind
  | directCall type tag arguments =>
      cases right with
      | directCall type' tag' arguments' =>
          cases sameType
          simp only [comparePayloads, Arguments.compare, Ordering.then_eq_eq,
            Std.LawfulEqOrd.compare_eq_iff_eq] at samePayload
          obtain ⟨rfl, sameLength, sameEntries⟩ := samePayload
          simp only [parts, List.forall_mem_cons] at known known'
          rw [eq_of_compareEntries arguments arguments' _ _ known.2.2.2.2
            known'.2.2.2.2 sameLength sameEntries]
      | constant | call | parameter | temporary => cases sameKind
  | temporary type index =>
      cases right with
      | temporary type' index' =>
          cases sameType
          rw [Std.LawfulEqOrd.eq_of_compare samePayload]
      | constant | call | parameter | directCall => cases sameKind

theorem eq_of_compareEntries (left right : Arguments) (calls calls' : Nat)
    (known : ∀ part ∈ entryParts calls left, part.IsBasic)
    (known' : ∀ part ∈ entryParts calls' right, part.IsBasic)
    (sameLength : left.length = right.length)
    (tie : compareEntries left right = .eq) : left = right := by
  cases left with
  | nil =>
      cases right with
      | nil => rfl
      | cons => cases sameLength
  | cons entry rest =>
      cases right with
      | nil => cases sameLength
      | cons entry' rest' =>
          obtain ⟨name, expression⟩ := entry
          obtain ⟨name', expression'⟩ := entry'
          simp only [entryParts, List.forall_mem_cons, List.forall_mem_append]
            at known known'
          simp only [compareEntries, Ordering.then_eq_eq,
            Std.LawfulEqOrd.compare_eq_iff_eq] at tie
          obtain ⟨rfl, sameHead, sameRest⟩ := tie
          rw [eq_of_compare expression expression' _ _ known.2.1 known'.2.1
            sameHead, eq_of_compareEntries rest rest' _ _ known.2.2 known'.2.2
              (Nat.succ_inj.mp sameLength) sameRest]

end

mutual

theorem compare_composes (low middle high : Expression)
    (calls calls' calls'' : Nat)
    (lowKnown : ∀ part ∈ low.parts calls, part.IsBasic)
    (middleKnown : ∀ part ∈ middle.parts calls', part.IsBasic)
    (highKnown : ∀ part ∈ high.parts calls'', part.IsBasic) :
    Composes (low.compare middle) (middle.compare high) (low.compare high) := by
  simp only [compare_eq_then]
  refine (Composes.ofTransOrd low.kind middle.kind high.kind).andThen
    fun sameKind sameKind' => ?_
  replace sameKind := Std.LawfulEqOrd.eq_of_compare sameKind
  replace sameKind' := Std.LawfulEqOrd.eq_of_compare sameKind'
  refine (ValueType.compare_composes (lowKnown _ (low.type_mem_parts calls))
    (middleKnown _ (middle.type_mem_parts calls'))
    (highKnown _ (high.type_mem_parts calls''))).andThen fun _ _ => ?_
  cases low with
  | constant type value =>
      cases middle with
      | call | parameter | directCall | temporary => cases sameKind
      | constant type' value' =>
          cases high with
          | call | parameter | directCall | temporary => cases sameKind'
          | constant type'' value'' =>
              exact Value.compare_composes
                (lowKnown (.value value) (by simp [parts]))
                (middleKnown (.value value') (by simp [parts]))
                (highKnown (.value value'') (by simp [parts]))
  | call type tag =>
      cases middle with
      | constant | parameter | directCall | temporary => cases sameKind
      | call type' tag' =>
          cases high with
          | constant | parameter | directCall | temporary => cases sameKind'
          | call type'' tag'' => exact .ofTransOrd tag tag' tag''
  | parameter type index =>
      cases middle with
      | constant | call | directCall | temporary => cases sameKind
      | parameter type' index' =>
          cases high with
          | constant | call | directCall | temporary => cases sameKind'
          | parameter type'' index'' => exact .ofTransOrd index index' index''
  | directCall type tag arguments =>
      cases middle with
      | constant | call | parameter | temporary => cases sameKind
      | directCall type' tag' arguments' =>
          cases high with
          | constant | call | parameter | temporary => cases sameKind'
          | directCall type'' tag'' arguments'' =>
              simp only [parts,
                List.forall_mem_cons] at lowKnown middleKnown highKnown
              refine (Composes.ofTransOrd tag tag' tag'').andThen fun _ _ => ?_
              refine (Composes.ofTransOrd arguments.length arguments'.length
                arguments''.length).andThen fun sameLength sameLength' => ?_
              exact compareEntries_composes arguments arguments' arguments''
                _ _ _
                lowKnown.2.2.2.2 middleKnown.2.2.2.2 highKnown.2.2.2.2
                (Std.LawfulEqOrd.eq_of_compare sameLength)
                (Std.LawfulEqOrd.eq_of_compare sameLength')
  | temporary type index =>
      cases middle with
      | constant | call | parameter | directCall => cases sameKind
      | temporary type' index' =>
          cases high with
          | constant | call | parameter | directCall => cases sameKind'
          | temporary type'' index'' => exact .ofTransOrd index index' index''

theorem compareEntries_composes (low middle high : Arguments)
    (calls calls' calls'' : Nat)
    (lowKnown : ∀ part ∈ entryParts calls low, part.IsBasic)
    (middleKnown : ∀ part ∈ entryParts calls' middle, part.IsBasic)
    (highKnown : ∀ part ∈ entryParts calls'' high, part.IsBasic)
    (sameLength : low.length = middle.length)
    (sameLength' : middle.length = high.length) :
    Composes (compareEntries low middle) (compareEntries middle high)
      (compareEntries low high) := by
  cases low with
  | nil =>
      cases middle with
      | cons => cases sameLength
      | nil =>
          cases high with
          | cons => cases sameLength'
          | nil => exact .tie
  | cons entry rest =>
      cases middle with
      | nil => cases sameLength
      | cons entry' rest' =>
          cases high with
          | nil => cases sameLength'
          | cons entry'' rest'' =>
              obtain ⟨name, expression⟩ := entry
              obtain ⟨name', expression'⟩ := entry'
              obtain ⟨name'', expression''⟩ := entry''
              simp only [entryParts, List.forall_mem_cons,
                List.forall_mem_append]
                at lowKnown middleKnown highKnown
              simp only [compareEntries]
              refine (Composes.ofTransOrd name name' name'').andThen
                fun _ _ => ?_
              refine (compare_composes expression expression' expression'' _ _ _
                lowKnown.2.1 middleKnown.2.1 highKnown.2.1).andThen
                  fun _ _ => ?_
              exact compareEntries_composes rest rest' rest'' _ _ _ lowKnown.2.2
                middleKnown.2.2 highKnown.2.2 (Nat.succ_inj.mp sameLength)
                (Nat.succ_inj.mp sameLength')

end

end Expression

namespace Arguments

theorem compare_swap (left right : Arguments) :
    (Arguments.compare left right).swap = Arguments.compare right left := by
  simp only [Arguments.compare, Ordering.swap_then, swap_compare,
    Expression.compareEntries_swap left right]

theorem compare_self (arguments : Arguments) :
    Arguments.compare arguments arguments = .eq :=
  Ordering.eq_eq_of_eq_swap (compare_swap arguments arguments).symm

theorem eq_of_compare {left right : Arguments}
    (known : ∀ part ∈ Arguments.parts left, part.IsBasic)
    (known' : ∀ part ∈ Arguments.parts right, part.IsBasic)
    (tie : Arguments.compare left right = .eq) : left = right := by
  rw [Arguments.compare, Ordering.then_eq_eq] at tie
  simp only [Arguments.parts, List.forall_mem_cons] at known known'
  exact Expression.eq_of_compareEntries left right 0 0 known.2 known'.2
    (Std.LawfulEqOrd.eq_of_compare tie.1) tie.2

theorem compare_composes {low middle high : Arguments}
    (lowKnown : ∀ part ∈ Arguments.parts low, part.IsBasic)
    (middleKnown : ∀ part ∈ Arguments.parts middle, part.IsBasic)
    (highKnown : ∀ part ∈ Arguments.parts high, part.IsBasic) :
    Composes (Arguments.compare low middle) (Arguments.compare middle high)
      (Arguments.compare low high) := by
  simp only [Arguments.parts,
    List.forall_mem_cons] at lowKnown middleKnown highKnown
  refine (Composes.ofTransOrd low.length middle.length high.length).andThen
    fun sameLength sameLength' => ?_
  exact Expression.compareEntries_composes low middle high 0 0 0 lowKnown.2
    middleKnown.2 highKnown.2 (Std.LawfulEqOrd.eq_of_compare sameLength)
    (Std.LawfulEqOrd.eq_of_compare sameLength')

end Arguments

/-- The forms that are ordered. -/
def Form.IsOrdered : Form → Prop
  | .expression | .arguments => True
  | .annotationCall | .annotationBlock | .annotationTable => False

namespace Tree

/-- The order of two trees of one form. -/
def compare? : Tree → Tree → Option Ordering
  | expression root, expression root' => some (root.compare root')
  | arguments entries, arguments entries' =>
      some (Arguments.compare entries entries')
  | _, _ => none

variable {left right : Tree} {order : Ordering}

theorem exists_compare? (ordered : left.form.IsOrdered)
    (sameForm : left.form = right.form) :
    ∃ order, left.compare? right = some order := by
  cases left with
  | expression root =>
      cases right with
      | expression root' => exact ⟨_, rfl⟩
      | arguments | annotationCall | annotationBlock | annotationTable =>
          cases sameForm
  | arguments entries =>
      cases right with
      | arguments entries' => exact ⟨_, rfl⟩
      | expression | annotationCall | annotationBlock | annotationTable =>
          cases sameForm
  | annotationCall | annotationBlock | annotationTable => exact ordered.elim

theorem compare?_self (tree : Tree) (ordered : tree.form.IsOrdered) :
    tree.compare? tree = some .eq := by
  cases tree with
  | expression root => exact congrArg some root.compare_self
  | arguments entries => exact congrArg some (Arguments.compare_self entries)
  | annotationCall | annotationBlock | annotationTable => exact ordered.elim

theorem compare?_swap (compared : left.compare? right = some order) :
    right.compare? left = some order.swap := by
  unfold compare? at compared
  split at compared
  · cases compared
    exact congrArg some (Expression.compare_swap _ _).symm
  · cases compared
    exact congrArg some (Arguments.compare_swap _ _).symm
  · cases compared

theorem eq_of_compare? (known : left.IsBasic) (known' : right.IsBasic)
    (tie : left.compare? right = some .eq) : left = right := by
  unfold compare? at tie
  split at tie
  · exact congrArg expression
      (Expression.eq_of_compare _ _ 0 0 known known' (Option.some.inj tie))
  · exact congrArg arguments
      (Arguments.eq_of_compare known known' (Option.some.inj tie))
  · cases tie

theorem compare?_composes {low middle high : Tree}
    {first second whole : Ordering}
    (lowKnown : low.IsBasic) (middleKnown : middle.IsBasic)
    (highKnown : high.IsBasic) (compared : low.compare? middle = some first)
    (compared' : middle.compare? high = some second)
    (compared'' : low.compare? high = some whole) :
      Composes first second whole := by
  cases low with
  | annotationCall | annotationBlock | annotationTable => cases compared
  | expression root =>
      cases middle with
      | arguments | annotationCall | annotationBlock | annotationTable =>
          cases compared
      | expression root' =>
          cases high with
          | arguments | annotationCall | annotationBlock | annotationTable =>
              cases compared'
          | expression root'' =>
              cases compared
              cases compared'
              cases compared''
              exact Expression.compare_composes root root' root'' 0 0 0 lowKnown
                middleKnown highKnown
  | arguments entries =>
      cases middle with
      | expression | annotationCall | annotationBlock | annotationTable =>
          cases compared
      | arguments entries' =>
          cases high with
          | expression | annotationCall | annotationBlock | annotationTable =>
              cases compared'
          | arguments entries'' =>
              cases compared
              cases compared'
              cases compared''
              exact Arguments.compare_composes lowKnown middleKnown highKnown

end Tree

end MaterialGraph
