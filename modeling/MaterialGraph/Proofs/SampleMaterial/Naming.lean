import MaterialGraph.Proofs.Expression.Target
import MaterialGraph.Proofs.SampleMaterial
import MaterialGraph.Proofs.Tag.Resolution
import Mathlib.Data.List.Nodup
import Std.Data.String.ToNat

/-!
# The names in a sample material

The layers are put on from the innermost one outwards, and each of them is
named on the way.  So the table always names the layers that are there, and
at the end the tags along the bases of the layers are in the order of their
numbers.
-/

namespace MaterialGraph

namespace Expression

mutual

/-- The tags of the direct calls on the path through the arguments of a given
name. -/
def tagsAlong (argument : String) : Expression → List Tag
  | directCall _ tag arguments => tag :: entryTagsAlong argument arguments
  | constant .. | call .. | parameter .. | temporary .. => []

def entryTagsAlong (argument : String) : Arguments → List Tag
  | [] => []
  | (name, expression) :: rest =>
      if name = argument then expression.tagsAlong argument
      else entryTagsAlong argument rest

end

end Expression

namespace SampleMaterial

open Expression

/-- The layers `levels - 1`, …, `0` over a body. -/
def cover : (levels : Nat) → Expression → Expression
  | 0, body => body
  | level + 1, body => cover level (layerCall level body)

/-- The names of the layers from `first` on, in the order of their tags. -/
def layerEntries (first count : Nat) : List (UInt64 × String) :=
  (List.range' first count).map fun level =>
    ((layerTag level).number, layerName level)

/-- The names of the surface and of the layers from `first` on. -/
def namesFrom (first count : Nat) : TagNames :=
  ⟨surfaceNames.entries ++ layerEntries first count⟩

variable {level levels count : Nat} {body : Expression}

theorem insert_layerTag (fits : 100 + level + count < UInt64.size) :
    (namesFrom (level + 1) count).insert (layerTag level) (layerName level) =
      namesFrom level (count + 1) := by
  have tagged : (layerTag level).isNull = false := isNull_layerTag (by omega)
  have number : (layerTag level).number.toNat = 100 + level :=
    toNat_layerTag (by omega)
  have below : ∀ entry ∈ surfaceNames.entries,
      entry.1 < (layerTag level).number := by
    intro entry member
    have small : entry.1.toNat < 100 := by
      revert entry
      decide
    rw [UInt64.lt_iff_toNat_lt]
    omega
  have above : ∀ entry ∈ layerEntries (level + 1) count,
      (layerTag level).number < entry.1 := by
    simp only [layerEntries, List.forall_mem_map, List.mem_range'_1]
    intro later inside
    have larger : (layerTag later).number.toNat = 100 + later :=
      toNat_layerTag (by omega)
    rw [UInt64.lt_iff_toNat_lt]
    omega
  rw [TagNames.insert, tagged, TagNames.put, namesFrom,
    TagNames.putEntry_between below above]
  rfl

/-- While layers are put on, the table names those that are on already. -/
theorem stack_eq (fits : 100 + levels + count < UInt64.size)
    (body : Expression) :
    stack levels body (namesFrom levels count) =
      .ok (cover levels body, namesFrom 0 (levels + count)) := by
  induction levels generalizing body count with
  | zero => rw [Nat.zero_add]; rfl
  | succ level induction =>
      rw [stack, layer_eq, isNull_layerTag (by omega)]
      change stack level (layerCall level body)
        ((namesFrom (level + 1) count).insert (layerTag level)
          (layerName level)) = _
      rw [insert_layerTag (by omega), induction (by omega), cover,
        Nat.add_right_comm, Nat.add_assoc]

theorem tagsAlong_cover (levels : Nat) (body : Expression) :
    (cover levels body).tagsAlong "base" =
      (List.range levels).map layerTag ++ body.tagsAlong "base" := by
  induction levels generalizing body with
  | zero => rfl
  | succ level induction =>
      rw [cover, induction, List.range_succ, List.map_append,
        List.append_assoc]
      rfl

/-- What is built, and the names of its tags. -/
theorem build_eq {layers : Nat} (fits : 100 + layers < UInt64.size) :
    build layers = .ok (cover layers surfaceCall, namesFrom 0 layers) := by
  rw [build, surface_eq]
  change stack layers surfaceCall surfaceNames = _
  have start : surfaceNames = namesFrom layers 0 :=
    congrArg TagNames.mk (List.append_nil _).symm
  rw [start, stack_eq fits]
  rfl

theorem numbers_tagsAlong_material {layers : Nat}
    (fits : 100 + layers < UInt64.size) :
    ((cover layers surfaceCall).tagsAlong "base").map
        (fun tag => tag.number.toNat) =
      List.range' 100 layers ++ [7] := by
  have numbers : ((List.range layers).map layerTag).map
      (fun tag => tag.number.toNat) = List.range' 100 layers := by
    rw [List.range'_eq_map_range, List.map_map]
    refine List.map_congr_left fun level member => toNat_layerTag ?_
    have inside := List.mem_range.mp member
    omega
  rw [tagsAlong_cover, List.map_append, numbers]
  rfl

section Names

variable {names : TagNames}

theorem isNamedBy_layerCall (layer : (names.resolve? (layerTag level)).isSome)
    (inner : body.IsNamedBy names) :
    (layerCall level body).IsNamedBy names := by
  intro calls tag member
  have outside : tag = layerTag level ∨ .tag tag ∈ body.parts (calls + 1) := by
    simpa [layerCall, parts, entryParts, Expression.ofValue] using member
  rcases outside with rfl | inside
  · exact layer
  · exact inner _ tag inside

theorem isNamedBy_cover
    (layers : ∀ level < levels, (names.resolve? (layerTag level)).isSome)
    (inner : body.IsNamedBy names) : (cover levels body).IsNamedBy names := by
  induction levels generalizing body with
  | zero => exact inner
  | succ level induction =>
      rw [Nat.forall_lt_succ_right] at layers
      exact induction layers.1 (isNamedBy_layerCall layers.2 inner)

theorem isNamedBy_surfaceCall
    (color : (names.resolve? lookupColor).isSome)
    (bsdf : (names.resolve? diffuseBsdf).isSome) :
    surfaceCall.IsNamedBy names := by
  intro calls tag member
  have either : tag = diffuseBsdf ∨ tag = lookupColor := by
    simpa [surfaceCall, parts, entryParts, Expression.ofValue] using member
  rcases either with rfl | rfl
  · exact bsdf
  · exact color

end Names

theorem numbers_namesFrom (first count : Nat) :
    (namesFrom first count).entries.map Prod.fst =
      [lookupColor.number, diffuseBsdf.number] ++
        (List.range' first count).map fun level => (layerTag level).number := by
  rw [namesFrom, List.map_append, layerEntries, List.map_map]
  rfl

theorem isNamedBy_material (layers : Nat) :
    (cover layers surfaceCall).IsNamedBy (namesFrom 0 layers) := by
  apply isNamedBy_cover
  · intro level below
    have inside : level ∈ List.range' 0 layers :=
      List.mem_range'_1.mpr ⟨level.zero_le, by omega⟩
    rw [TagNames.isSome_resolve?_iff, numbers_namesFrom]
    exact List.mem_append_right _ (List.mem_map_of_mem inside)
  · apply isNamedBy_surfaceCall
    · rw [TagNames.isSome_resolve?_iff, numbers_namesFrom]
      exact List.mem_append_left _ (by decide)
    · rw [TagNames.isSome_resolve?_iff, numbers_namesFrom]
      exact List.mem_append_left _ (by decide)

theorem layerName_injective : layerName.Injective := by
  intro level level' same
  exact Nat.repr_inj.mp ((String.append_right_inj _).mp same)

theorem take_layerName (level : Nat) :
    (layerName level).toList.take 4 = [':', ':', 'd', 'e'] := by
  rw [layerName, String.toList_append]
  rfl

theorem nodup_names (layers : Nat) :
    ((namesFrom 0 layers).entries.map Prod.snd).Nodup := by
  have layerNames : (layerEntries 0 layers).map Prod.snd =
      (List.range' 0 layers).map layerName := by
    rw [layerEntries, List.map_map]
    rfl
  have distinct : ((List.range' 0 layers).map layerName).Nodup :=
    List.Nodup.map layerName_injective List.nodup_range'
  rw [namesFrom, List.map_append, layerNames]
  refine List.Nodup.append (by decide) distinct ?_
  rw [List.disjoint_right, List.forall_mem_map]
  intro level _ member
  have other : ∀ shown ∈ surfaceNames.entries.map Prod.snd,
      shown.toList.take 4 ≠ [':', ':', 'd', 'e'] := by decide
  exact other _ member (take_layerName level)

theorem resolve?_injective {tag tag' : Tag} {shown : String}
    (named : (namesFrom 0 levels).resolve? tag = some shown)
    (named' : (namesFrom 0 levels).resolve? tag' = some shown) :
    tag = tag' := by
  have same : (tag.number, shown) = (tag'.number, shown) :=
    List.inj_on_of_nodup_map (nodup_names levels)
      (TagNames.mem_of_resolve?_eq_some named)
      (TagNames.mem_of_resolve?_eq_some named') rfl
  exact congrArg Tag.mk (Prod.mk.inj same).1

/-- Every material of the sample is built.  Along the bases of its layers stand
the tags of all layers from the outermost one inwards, and then the tag of the
surface.  The table has an entry for each of these and for the texture, it
names every tag of the material, and no two tags have one name.  A dump to any
depth is the same with every table that agrees on these tags, whatever would be
shown for a tag without a name. -/
theorem build_fully_named {layers : Nat}
    (fits : 100 + layers < UInt64.size) :
    ∃ material names, build layers = .ok (material, names) ∧
      (material.tagsAlong "base").map (fun tag => tag.number.toNat) =
        List.range' 100 layers ++ [7] ∧
      names.size = layers + 2 ∧
      (∀ tag, .tag tag ∈ (Tree.expression material).parts →
        (names.resolve? tag).isSome) ∧
      (∀ tag tag' shown, names.resolve? tag = some shown →
        names.resolve? tag' = some shown → tag = tag') ∧
      ∀ (style : DumpStyle) (name : String),
        (∀ other : TagNames,
          (∀ tag, (names.resolve? tag).isSome →
            other.resolve? tag = names.resolve? tag) →
          (Tree.expression material).dump (style.withNames other) name =
            (Tree.expression material).dump (style.withNames names) name) ∧
        ∀ unnamed : Tag → String,
          (Tree.expression material).dump (style.withNames names) name =
            Line.renderAll style.indentWidth
              (material.linesShowing style (names.shown unnamed) name 0 0) := by
  have named := isNamedBy_material layers
  refine ⟨_, _, build_eq fits, numbers_tagsAlong_material fits, ?_, named 0,
    fun tag tag' shown => resolve?_injective, ?_⟩
  · have numbers := congrArg List.length (numbers_namesFrom 0 layers)
    simpa [TagNames.size] using numbers
  · intro style name
    have same := named.dump_eq (fun _ _ => rfl) style name
    constructor
    · intro other agree
      rw [named.dump_eq agree style name Tag.text, same Tag.text]
    · exact same

/-- Two layers. -/
theorem build_two_fully_named :
    ∃ material names, build 2 = .ok (material, names) ∧
      (material.tagsAlong "base").map (fun tag => tag.number.toNat) =
        [100, 101, 7] ∧
      names.size = 4 := by
  obtain ⟨material, names, built, tags, size, -⟩ :=
    @build_fully_named 2 (by decide)
  exact ⟨material, names, built, tags, size⟩

end SampleMaterial

end MaterialGraph
