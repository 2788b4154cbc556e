import MaterialGraph.Proofs.Value.Order

/-!
# Basic and foreign types and values together

Two orders are glued together: basic types and values have their own, and as
soon as one side is foreign the texts are compared.  Among three the result is
transitive unless exactly one of them is foreign.  A foreign one can then stand
between two basic ones whose own order is not that of their texts.
-/

namespace MaterialGraph

/-- Everything can stand between two ends exactly if the ends can stand next to
each other. -/
theorem Composes.forall_between_iff {α : Type} [Ord α] [Std.TransOrd α]
    {low high : α} {whole : Ordering} :
    (∀ middle, Composes (compare low middle) (compare middle high) whole) ↔
      Composes .eq (compare low high) whole := by
  constructor
  · intro between
    have atLow := between low
    rwa [Std.ReflOrd.compare_self] at atLow
  · intro adjacent middle
    have ends := ofTransOrd low middle high
    constructor
    · intro up up'
      exact adjacent.isLE rfl (ends.isLE up up')
    · intro up up' someStrict
      have strict := ends.lt up up' someStrict
      exact adjacent.lt rfl (ends.isLE up up') (.inr strict)

/-- An order in which a pair with a foreign part is ordered by the texts. -/
structure GluedByText {α : Type} [Ord α] (foreign : α → Bool)
    (text : α → String) : Prop where
  byText : ∀ {left right : α}, foreign left ∨ foreign right →
    compare left right = compare (text left) (text right)
  basic : ∀ {low middle high : α}, foreign low = false →
    foreign middle = false → foreign high = false →
      Composes (compare low middle) (compare middle high) (compare low high)

/-- Three are in order unless one is foreign and two are not. -/
theorem GluedByText.composes {α : Type} [Ord α] {foreign : α → Bool}
    {text : α → String} (glued : GluedByText foreign text) {low middle high : α}
    (mixture : [low, middle, high].countP foreign ≠ 1) :
    Composes (compare low middle) (compare middle high) (compare low high) := by
  have texts := Composes.ofTransOrd (text low) (text middle) (text high)
  cases lowForeign : foreign low <;> cases middleForeign : foreign middle <;>
    cases highForeign : foreign high
  case false.false.false =>
    exact glued.basic lowForeign middleForeign highForeign
  case true.false.false | false.true.false | false.false.true =>
    simp [lowForeign, middleForeign, highForeign] at mixture
  -- with two foreign ones every pair is ordered by texts
  all_goals
    rwa [glued.byText (by simp [lowForeign, middleForeign]),
      glued.byText (by simp [middleForeign, highForeign]),
      glued.byText (by simp [lowForeign, highForeign])]

/-- Foreign ones can stand between two ends exactly if the order of the ends
respects their texts. -/
theorem GluedByText.forall_foreign_iff {α : Type} [Ord α] {foreign : α → Bool}
    {text : α → String} (glued : GluedByText foreign text) {wrap : String → α}
    (isForeign : ∀ shown, foreign (wrap shown))
    (shows : ∀ shown, text (wrap shown) = shown) (low high : α) :
    (∀ shown, Composes (compare low (wrap shown)) (compare (wrap shown) high)
        (compare low high)) ↔
      Composes .eq (compare (text low) (text high)) (compare low high) := by
  have below : ∀ shown, compare low (wrap shown) = compare (text low) shown := by
    intro shown
    rw [glued.byText (.inr (isForeign shown)), shows]
  have above : ∀ shown, compare (wrap shown) high = compare shown (text high) := by
    intro shown
    rw [glued.byText (.inl (isForeign shown)), shows]
  simp only [below, above]
  exact Composes.forall_between_iff

namespace ValueType

def isForeign : ValueType → Bool
  | basic _ => false
  | foreign _ => true

theorem gluedByText : GluedByText isForeign text where
  byText {left right} someForeign := by
    cases left <;> cases right <;> first | rfl | simp [isForeign] at someForeign
  basic {low middle high} lowBasic middleBasic highBasic := by
    cases low <;> cases middle <;> cases high <;>
      first | exact compare_composes trivial trivial trivial | contradiction

end ValueType

namespace Value

def isForeign : Value → Bool
  | basic _ => false
  | foreign _ => true

theorem gluedByText : GluedByText isForeign text where
  byText {left right} someForeign := by
    cases left <;> cases right <;> first | rfl | simp [isForeign] at someForeign
  basic {low middle high} lowBasic middleBasic highBasic := by
    cases low <;> cases middle <;> cases high <;>
      first | exact compare_composes trivial trivial trivial | contradiction

end Value

/-- Types and values are ordered, except that a foreign one need not be in order
with two basic ones.  It is if the order of the two respects their texts. -/
theorem compare_order_of_mixture (lowType middleType highType : ValueType)
    (low middle high : Value) :
    (compare lowType lowType = .eq ∧
      (compare lowType middleType).swap = compare middleType lowType ∧
      ([lowType, middleType, highType].countP ValueType.isForeign ≠ 1 →
        Composes (compare lowType middleType) (compare middleType highType)
          (compare lowType highType)) ∧
      ((∀ shown, Composes (compare lowType (.foreign shown))
          (compare (.foreign shown) highType) (compare lowType highType)) ↔
        Composes .eq (compare lowType.text highType.text)
          (compare lowType highType))) ∧
    compare low low = .eq ∧
      (compare low middle).swap = compare middle low ∧
      ([low, middle, high].countP Value.isForeign ≠ 1 →
        Composes (compare low middle) (compare middle high)
          (compare low high)) ∧
      ((∀ shown, Composes (compare low (.foreign shown))
          (compare (.foreign shown) high) (compare low high)) ↔
        Composes .eq (compare low.text high.text) (compare low high)) := by
  refine ⟨⟨Std.ReflOrd.compare_self, lowType.compare_swap middleType, ?_, ?_⟩,
    Std.ReflOrd.compare_self, low.compare_swap middle, ?_, ?_⟩
  · exact ValueType.gluedByText.composes
  · exact ValueType.gluedByText.forall_foreign_iff (fun _ => rfl)
      (fun _ => rfl) lowType highType
  · exact Value.gluedByText.composes
  · exact Value.gluedByText.forall_foreign_iff (fun _ => rfl) (fun _ => rfl)
      low high

/-- The texts of two types, and those of two numbers, are not in the order of
the types and of the numbers. -/
theorem not_compare_isLE_of_foreign_between :
    (compare (ValueType.basic .float) (.foreign "g") = .lt ∧
      compare (ValueType.foreign "g") (.basic .int) = .lt ∧
      compare (ValueType.basic .float) (.basic .int) = .gt) ∧
    compare (Value.basic (.int 10)) (.foreign "5") = .lt ∧
      compare (Value.foreign "5") (.basic (.int 9)) = .lt ∧
      compare (Value.basic (.int 10)) (.basic (.int 9)) = .gt := by
  decide

end MaterialGraph
