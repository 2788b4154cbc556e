import MaterialGraph.Proofs.Value.Encoding

/-!
# The order of types and values

Any two types and any two values compare to opposite results the other way
round.  Basic types and values are totally ordered, and only equal ones compare
as equal.  Types and values of other systems spoil transitivity, because they
are ordered by text against everything.
-/

namespace MaterialGraph

/-- Two comparisons in a row go up, and strictly up if one of them does. -/
structure Composes (first second whole : Ordering) : Prop where
  isLE : first.isLE → second.isLE → whole.isLE
  lt : first.isLE → second.isLE → first = .lt ∨ second = .lt → whole = .lt

namespace Composes

theorem downFirst {second whole : Ordering} : Composes .gt second whole :=
  ⟨nofun, nofun⟩

theorem downSecond {first whole : Ordering} : Composes first .gt whole :=
  ⟨fun _ => nofun, fun _ => nofun⟩

theorem tie : Composes .eq .eq .eq :=
  ⟨fun _ _ => rfl, fun _ _ strict => by cases strict <;> contradiction⟩

theorem up {first second : Ordering} : Composes first second .lt :=
  ⟨fun _ _ => rfl, fun _ _ _ => rfl⟩

/-- A tie may be broken by whatever composes whenever both comparisons tie. -/
theorem andThen {first second whole first' second' whole' : Ordering}
    (outer : Composes first second whole)
    (inner : first = .eq → second = .eq → Composes first' second' whole') :
    Composes (first.then first') (second.then second') (whole.then whole') := by
  cases first with
  | gt => exact downFirst
  | lt =>
      cases second with
      | gt => exact downSecond
      | lt | eq =>
          cases outer.lt rfl rfl (.inl rfl)
          exact up
  | eq =>
      cases second with
      | gt => exact downSecond
      | lt =>
          cases outer.lt rfl rfl (.inr rfl)
          exact up
      | eq =>
          cases whole with
          | gt => cases outer.isLE rfl rfl
          | lt => exact up
          | eq => exact inner rfl rfl

theorem ofTransOrd {α : Type} [Ord α] [Std.TransOrd α] (low middle high : α) :
    Composes (compare low middle) (compare middle high) (compare low high) := by
  constructor
  · intro up up'
    exact Std.TransOrd.isLE_trans up up'
  · intro up up' someStrict
    rcases someStrict with strict | strict
    · exact Std.TransCmp.lt_of_lt_of_isLE strict up'
    · exact Std.TransCmp.lt_of_isLE_of_lt up strict

end Composes

theorem swap_compare {α : Type} [Ord α] [Std.OrientedOrd α] (left right : α) :
    (compare left right).swap = compare right left :=
  Std.OrientedOrd.eq_swap.symm

namespace Binary32

theorem orderKey_eq (number : Binary32) : number.orderKey =
    if signBit ≤ number.bits.toNat then
      -((number.bits.toNat % signBit : Nat) : Int) - 1
    else ((number.bits.toNat % signBit : Nat) : Int) := by
  simp [orderKey, isNegative, magnitude]

theorem compare_eq (left right : Binary32) :
    compare left right = compare left.orderKey right.orderKey :=
  rfl

theorem orderKey_injective {number number' : Binary32}
    (same : number.orderKey = number'.orderKey) : number = number' := by
  have small := number.bits.toNat_lt_size
  have small' := number'.bits.toNat_lt_size
  have sameBits : number.bits.toNat = number'.bits.toNat := by
    simp only [orderKey_eq, signBit] at same
    simp only [UInt32.size] at small small'
    omega
  cases number
  cases number'
  cases UInt32.toNat_inj.mp sameBits
  rfl
instance : Std.TransOrd Binary32 :=
  inferInstanceAs (Std.TransCmp (compareOn orderKey))

instance : Std.LawfulEqOrd Binary32 where
  compare_self {number} := Std.ReflOrd.compare_self (a := number.orderKey)
  eq_of_compare same := orderKey_injective (Std.LawfulEqOrd.eq_of_compare same)

end Binary32

namespace BasicValue

/-- The numbers in a value, in the order in which they are compared. -/
def numbers : BasicValue → List Int
  | bool truth => [if truth then 1 else 0]
  | int number => [number.toInt]
  | float number => [number.orderKey]
  | color red green blue => [red.orderKey, green.orderKey, blue.orderKey]
  | string _ => []

/-- The text in a value. -/
def content : BasicValue → String
  | string content => content
  | _ => ""

theorem compare_eq_compareLex :
    BasicValue.compare =
      compareLex (compareOn fun value => value.type.code)
        (compareLex (compareOn numbers) (compareOn content)) := by
  funext value value'
  simp only [compareLex, compareOn]
  cases value with
  | bool truth =>
      cases value' with
      | bool truth' => cases truth <;> cases truth' <;> rfl
      | int | float | color | string => rfl
  | int number =>
      cases value' with
      | int number' => simp [BasicValue.compare, type, numbers, content]
      | bool | float | color | string => rfl
  | float number =>
      cases value' with
      | float number' =>
        simp [BasicValue.compare, type, numbers, content, Binary32.compare_eq]
      | bool | int | color | string => rfl
  | color red green blue =>
      cases value' with
      | color red' green' blue' =>
        simp [BasicValue.compare, type, numbers, content, Binary32.compare_eq]
      | bool | int | float | string => rfl
  | string content =>
      cases value' with
      | string content' =>
          simp [BasicValue.compare, type, numbers, BasicValue.content]
      | bool | int | float | color => rfl

theorem eq_of_same {value value' : BasicValue}
    (sameType : value.type = value'.type)
    (sameNumbers : value.numbers = value'.numbers)
    (sameContent : value.content = value'.content) : value = value' := by
  cases value with
  | bool truth =>
      cases value' with
      | bool truth' => cases truth <;> cases truth' <;> simp_all [numbers]
      | int | float | color | string => cases sameType
  | int number =>
      cases value' with
      | int number' => 
        rw [Int32.toInt_inj.mp (List.singleton_inj.mp sameNumbers)]
      | bool | float | color | string => cases sameType
  | float number =>
      cases value' with
      | float number' => 
        rw [Binary32.orderKey_injective (List.singleton_inj.mp sameNumbers)]
      | bool | int | color | string => cases sameType
  | color red green blue =>
      cases value' with
      | color red' green' blue' => 
        simp only [numbers, List.cons.injEq, and_true] at sameNumbers
        rw [Binary32.orderKey_injective sameNumbers.1,
          Binary32.orderKey_injective sameNumbers.2.1,
            Binary32.orderKey_injective sameNumbers.2.2]
      | bool | int | float | string => cases sameType
  | string content =>
      cases value' with
      | string content' => exact congrArg string sameContent
      | bool | int | float | color => cases sameType

instance : Std.TransOrd BasicValue := by
  change Std.TransCmp BasicValue.compare
  rw [compare_eq_compareLex]
  infer_instance

instance : Std.LawfulEqOrd BasicValue where
  compare_self {value} := by
    change BasicValue.compare value value = .eq
    rw [compare_eq_compareLex]
    exact Std.ReflCmp.compare_self
  eq_of_compare {value value'} tie := by
    change BasicValue.compare value value' = .eq at tie
    simp only [compare_eq_compareLex, compareLex_eq_eq, compareOn,
      Std.LawfulEqOrd.compare_eq_iff_eq] at tie
    exact eq_of_same (BasicType.code_injective tie.1) tie.2.1 tie.2.2

end BasicValue

namespace ValueType

theorem compare_swap (left right : ValueType) :
    (compare left right).swap = compare right left := by
  cases left with
  | basic type =>
      cases right with
      | basic type' => exact swap_compare type.code type'.code
      | foreign text => exact swap_compare type.text text
  | foreign text =>
      cases right with
      | basic type' => exact swap_compare text type'.text
      | foreign text' => exact swap_compare text text'

instance : Std.OrientedOrd ValueType where
  eq_swap {left right} := (compare_swap right left).symm

theorem compare_eq_iff {left right : ValueType} (known : left.IsBasic)
    (known' : right.IsBasic) : compare left right = .eq ↔ left = right := by
  cases left with
  | foreign text => exact known.elim
  | basic type =>
      cases right with
      | foreign text => exact known'.elim
      | basic type' =>
          change compare type.code type'.code = .eq ↔ _
          rw [Std.LawfulEqOrd.compare_eq_iff_eq]
          constructor
          · intro same
            rw [BasicType.code_injective same]
          · intro same
            cases same
            rfl

theorem compare_composes {low middle high : ValueType} (lowKnown : low.IsBasic)
    (middleKnown : middle.IsBasic) (highKnown : high.IsBasic) :
    Composes (compare low middle) (compare middle high) (compare low high) := by
  cases low with
  | foreign text => exact lowKnown.elim
  | basic low =>
      cases middle with
      | foreign text => exact middleKnown.elim
      | basic middle =>
          cases high with
          | foreign text => exact highKnown.elim
          | basic high => exact .ofTransOrd low.code middle.code high.code

end ValueType

namespace Value

theorem compare_swap (left right : Value) :
    (compare left right).swap = compare right left := by
  cases left with
  | basic value =>
      cases right with
      | basic value' => exact swap_compare value value'
      | foreign text => exact swap_compare value.text text
  | foreign text =>
      cases right with
      | basic value' => exact swap_compare text value'.text
      | foreign text' => exact swap_compare text text'

instance : Std.OrientedOrd Value where
  eq_swap {left right} := (compare_swap right left).symm

theorem compare_eq_iff {left right : Value} (known : left.IsBasic)
    (known' : right.IsBasic) : compare left right = .eq ↔ left = right := by
  cases left with
  | foreign text => exact known.elim
  | basic value =>
      cases right with
      | foreign text => exact known'.elim
      | basic value' =>
          change compare value value' = .eq ↔ _
          rw [Std.LawfulEqOrd.compare_eq_iff_eq, basic.injEq]

theorem compare_composes {low middle high : Value} (lowKnown : low.IsBasic)
    (middleKnown : middle.IsBasic) (highKnown : high.IsBasic) :
    Composes (compare low middle) (compare middle high) (compare low high) := by
  cases low with
  | foreign text => exact lowKnown.elim
  | basic low =>
      cases middle with
      | foreign text => exact middleKnown.elim
      | basic middle =>
          cases high with
          | foreign text => exact highKnown.elim
          | basic high => exact .ofTransOrd low middle high

end Value

end MaterialGraph
