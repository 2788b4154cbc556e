import MaterialGraph.Expression.Basic

/-!
# A sample material

A stack of layers over a diffuse surface.  The innermost call has one argument
of every kind that carries no arguments itself.
-/

namespace MaterialGraph

namespace SampleMaterial

def lookupColor : Tag := ⟨3⟩

def diffuseBsdf : Tag := ⟨7⟩

/-- The tag of a layer, where layer zero is the outermost one. -/
def layerTag (level : Nat) : Tag := ⟨UInt64.ofNat (100 + level)⟩

def layerName (level : Nat) : String := "::demo::layer_" ++ toString level

/-- The number one quarter. -/
def quarter : Value := .basic (.float ⟨0x3e800000⟩)

/-- The number one half. -/
def half : Value := .basic (.float ⟨0x3f000000⟩)

/-- The surface below all layers. -/
def surface : Except EditError Expression := do
  let tint ← Expression.makeCall (.basic .color) lookupColor
  let arguments ← Arguments.add [] "tint" tint
  let arguments ← Arguments.add arguments "roughness" (.ofValue quarter)
  let arguments ← Arguments.add arguments "normal" (.parameter (.basic .color) 0)
  let arguments ← Arguments.add arguments "weight" (.temporary (.basic .float) 0)
  Expression.makeDirectCall (.basic .bsdf) diffuseBsdf arguments

/-- One layer over a body. -/
def layer (level : Nat) (body : Expression) : Except EditError Expression := do
  let arguments ← Arguments.add [] "base" body
  let arguments ← Arguments.add arguments "weight" (.ofValue half)
  Expression.makeDirectCall (.basic .bsdf) (layerTag level) arguments

/-- Put the layers `levels - 1`, …, `0` over a body, innermost first. -/
def stack : (levels : Nat) → Expression → TagNames →
    Except EditError (Expression × TagNames)
  | 0, body, names => .ok (body, names)
  | level + 1, body, names => do
      let covered ← layer level body
      stack level covered (names.insert (layerTag level) (layerName level))

/-- The names of the surface's functions. -/
def surfaceNames : TagNames :=
  TagNames.ofList
    [(lookupColor, "::tex::lookup_color"),
      (diffuseBsdf, "::df::diffuse_reflection_bsdf")]

/-- A material with the given number of layers, and the names of its tags. -/
def build (layers : Nat) : Except EditError (Expression × TagNames) := do
  let body ← surface
  stack layers body surfaceNames

end SampleMaterial

end MaterialGraph
