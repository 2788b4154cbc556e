import MaterialGraph.Proofs.Expression.Nesting
import MaterialGraph.Proofs.Tag
import MaterialGraph.SampleMaterial

/-!
# What is built as a sample

A sample material is sound, and its height is one for the surface and one for
each layer.  The names of its tags are in increasing order of the tags'
numbers.
-/

namespace MaterialGraph

open Expression

namespace SampleMaterial

/-- The surface as an expression. -/
def surfaceCall : Expression :=
  .directCall (.basic .bsdf) diffuseBsdf
    [("tint", .call (.basic .color) lookupColor),
      ("roughness", .ofValue quarter),
      ("normal", .parameter (.basic .color) 0),
      ("weight", .temporary (.basic .float) 0)]

/-- A layer over a body as an expression. -/
def layerCall (level : Nat) (body : Expression) : Expression :=
  .directCall (.basic .bsdf) (layerTag level)
    [("base", body), ("weight", .ofValue half)]

theorem surface_eq : surface = .ok surfaceCall :=
  rfl

theorem layer_eq (level : Nat) (body : Expression) :
    layer level body =
      if (layerTag level).isNull then .error .invalidTag
      else .ok (layerCall level body) :=
  rfl

theorem isSound_surfaceCall : surfaceCall.IsSound := by
  have known : (ValueType.basic .bsdf).IsBasic := trivial
  apply IsSound.directCall known
  · decide
  · decide
  · decide
  · simp only [List.forall_mem_cons]
    exact ⟨by decide, by decide, by decide, by decide, List.forall_mem_nil _⟩
  · simp only [List.forall_mem_cons]
    exact ⟨.call trivial (by decide), .constant trivial trivial (by decide),
      .parameter 0 trivial, .temporary 0 trivial, List.forall_mem_nil _⟩

theorem isSound_layerCall {level : Nat} {body : Expression}
    (tagged : layerTag level ≠ Tag.null) (sound : body.IsSound) :
    (layerCall level body).IsSound := by
  have weight : (Expression.ofValue half).IsSound :=
    .constant trivial trivial (by decide)
  have known : (ValueType.basic .bsdf).IsBasic := trivial
  apply IsSound.directCall known tagged
  · simp
  · simp only [List.length_cons, List.length_nil]
    decide
  · simp only [List.forall_mem_cons]
    exact ⟨by decide, by decide, List.forall_mem_nil _⟩
  · simp only [List.forall_mem_cons]
    exact ⟨sound, weight, List.forall_mem_nil _⟩

theorem height_layerCall (level : Nat) (body : Expression) :
    (layerCall level body).height = body.height + 1 := by
  simp [layerCall, height, heightWithin, Expression.ofValue]

theorem stack_eq_ok {levels : Nat} {body material : Expression}
    {names allNames : TagNames}
    (built : stack levels body names = .ok (material, allNames))
    (sound : body.IsSound) (sorted : names.IsSorted) :
    material.IsSound ∧ material.height = body.height + levels ∧
      allNames.IsSorted := by
  induction levels generalizing body names with
  | zero =>
      cases built
      exact ⟨sound, rfl, sorted⟩
  | succ level induction =>
      rw [stack, layer_eq] at built
      split at built
      · cases built
      · rename_i notNull
        have tagged : layerTag level ≠ Tag.null := by
          intro null
          exact notNull (beq_iff_eq.mpr null)
        obtain ⟨materialSound, high, allSorted⟩ := induction built
          (isSound_layerCall tagged sound) (sorted.insert _ _)
        rw [height_layerCall] at high
        exact ⟨materialSound, by omega, allSorted⟩

theorem build_eq_ok {layers : Nat} {material : Expression} {names : TagNames}
    (built : build layers = .ok (material, names)) :
    material.IsSound ∧ material.height = layers + 1 ∧ names.IsSorted := by
  rw [build, surface_eq] at built
  obtain ⟨sound, high, sorted⟩ :=
    stack_eq_ok built isSound_surfaceCall (TagNames.isSorted_ofList _)
  refine ⟨sound, ?_, sorted⟩
  rw [high, Nat.add_comm]
  rfl

theorem toNat_layerTag {level : Nat} (fits : 100 + level < UInt64.size) :
    (layerTag level).number.toNat = 100 + level :=
  UInt64.toNat_ofNat_of_lt' fits

/-- No layer has the null tag unless the tags' numbers run over. -/
theorem isNull_layerTag {level : Nat} (fits : 100 + level < UInt64.size) :
    (layerTag level).isNull = false := by
  apply beq_eq_false_iff_ne.mpr
  intro null
  have number := toNat_layerTag fits
  rw [null] at number
  change 0 = 100 + level at number
  omega

theorem exists_build_eq_ok {layers : Nat}
    (fits : 100 + layers ≤ UInt64.size) :
    ∃ material names, build layers = .ok (material, names) := by
  suffices all : ∀ body names, ∃ material allNames,
      stack layers body names = .ok (material, allNames) from all _ _
  induction layers with
  | zero => exact fun body names => ⟨body, names, rfl⟩
  | succ level induction =>
      intro body names
      rw [stack, layer_eq, isNull_layerTag (by omega)]
      exact induction (by omega) _ _

end SampleMaterial

end MaterialGraph
