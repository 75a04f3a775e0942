import Mathlib.Data.String.Basic
import Kinewright.Lib.Text
import Kinewright.Model.Effects

/-!
# Rules of effects

`effect.rs`, `operation.rs`: which parameters and curves an effect may carry, and how many colour nodes
in which order a clip may.
-/

namespace Kinewright.Model

open Fallible ColorNodeKind

/-! ## Colour nodes -/

namespace ColorNodeKind

/-- `ColorNodeKind::is_lut`. -/
def isLut : ColorNodeKind → Bool
  | .technicalLut | .creativeLook => true
  | _ => false

/-- `ColorNodeKind::supports_matte`. -/
def supportsMatte (kind : ColorNodeKind) : Bool := kind ≠ .technicalLut

/-- The rank of `ColorNodeKind::stage`. -/
def stageRank : ColorNodeKind → ℕ
  | .technicalLut => 0
  | .primary | .wheels | .curves => 1
  | .creativeLook => 2

/-- `ColorNodeKind::effect_name`. -/
def effectName : ColorNodeKind → String
  | .technicalLut => "technical_lut"
  | .primary => "primary_correction"
  | .wheels => "color_wheels"
  | .curves => "color_curves"
  | .creativeLook => "creative_look"

end ColorNodeKind

/-- `is_managed_color_node`. -/
def isManagedColorNode (name : String) : Bool := (fromEffectName name).isSome

/-- `is_lut_color_node`. -/
def isLutColorNode (name : String) : Bool := (fromEffectName name).any ColorNodeKind.isLut

/-- `managed_color_node_count`. -/
def managedColorNodeCount (effects : List Effect) : ℕ := effects.countP fun effect => isManagedColorNode effect.name

/-- `lut_node_count`. -/
def lutNodeCount (effects : List Effect) : ℕ := effects.countP fun effect => isLutColorNode effect.name

/-- A managed colour node of a stack. -/
abbrev ColorNode := EffectId × ColorNodeKind

/-- The managed colour nodes of a stack. -/
def colorNodes (effects : List Effect) : List ColorNode :=
  effects.filterMap fun effect => (fromEffectName effect.name).map fun kind =>
    (effect.id, kind)

/-- `color_stage_order_violation_over`: the first node that is of an earlier stage than the one before it,
after that one. -/
def colorStageOrderViolationOver : List ColorNode → Option (ColorNode × ColorNode)
  | previous :: node :: nodes => if node.2.stageRank < previous.2.stageRank then some (previous, node)
    else colorStageOrderViolationOver (node :: nodes)
  | _ => none

/-- `stage_order_error`. -/
def stageOrderError (clip : ClipId) (violation : ColorNode × ColorNode) : OpError :=
  .colorStageOrderViolation clip violation.2.1 violation.1.1 violation.2.2.effectName
    violation.1.2.effectName violation.2.2.stageRank violation.1.2.stageRank

/-- The check of a stack for the order of its stages. -/
def checkStageOrder (clip : ClipId) (nodes : List ColorNode) : Except OpError Unit :=
  match colorStageOrderViolationOver nodes with
  | some violation => .error (stageOrderError clip violation)
  | none => .ok ()

/-! ## Stored parameters -/

/-- `Effect::static_integer_parameter`. -/
def Effect.staticIntegerParameter (effect : Effect) (name : String) : Option Int64 :=
  match effect.parameters.get? name with
  | some (.integer value) => some value
  | _ => none

/-- `stored_integer`. -/
def storedInteger (effect : Effect) (name : String) (neutral : Int64) : Int64 :=
  (effect.staticIntegerParameter name).getD neutral

/-- `ColorCurveChannel::ALL`, by name. -/
def colorCurveChannels : List String := ["master", "red", "green", "blue"]

/-- The points of `curve_order_violation`, from the given one on. -/
def curvePointsViolation (effect : Effect) (channel : String) (previousX : Option Int64) :
    List ℕ → Option (ℕ × Int64 × Int64)
  | [] => none
  | index :: rest =>
    let x := storedInteger effect s!"{channel}_x{index}" (if index = 0 then 0 else 10000)
    match previousX with
    | some previous =>
      if x ≤ previous then some (index, previous, x)
      else curvePointsViolation effect channel (some x) rest
    | none => curvePointsViolation effect channel (some x) rest

/-- `curve_order_violation`. -/
def curveOrderViolation (effect : Effect) (channel : String) : Option (ℕ × Int64 × Int64) :=
  let declared := min (max (storedInteger effect s!"{channel}_point_count" 2) 2) 16
  curvePointsViolation effect channel none (List.range declared.toInt.toNat)

/-- `validate_color_curve_points`. -/
def validateColorCurvePoints (effect : Effect) : Except OpError Unit :=
  if fromEffectName effect.name ≠ some .curves then .ok ()
  else match colorCurveChannels.findSome? fun channel =>
      (curveOrderViolation effect channel).map fun found => (channel, found) with
    | some (channel, index, previousX, x) =>
      .error (.invalidCurvePoints effect.name channel index previousX x)
    | none => .ok ()

/-! ## Parameters that are not interpolated -/

/-- `is_hold_only_matte_parameter`. -/
def isHoldOnlyMatteParameter (name : String) : Bool :=
  ["matte_enabled", "matte_window_count", "matte_combine_token", "matte_invert",
    "matte_qualifier_enabled"].contains name ||
  (List.range 4).any fun index =>
    name = s!"matte_window{index}_shape_token" || name = s!"matte_window{index}_invert"

/-- `is_hold_only_parameter`. -/
def isHoldOnlyParameter (effectName name : String) : Bool :=
  if isAudioEffect effectName then
    ["bypass", "detector", "true_peak", "harmonic_count"].contains name
  else match fromEffectName effectName with
    | none => false
    | some kind =>
      (kind = .curves && colorCurveChannels.any fun channel => name = s!"{channel}_point_count") ||
      (kind.isLut && (name = "lut_asset_id" || name = "input_encoding_token")) ||
      (kind.supportsMatte && isHoldOnlyMatteParameter name)

/-- `AUDIO_LOOKAHEAD_PARAMETER`. -/
def audioLookaheadParameter : String := "lookahead_milliseconds"

/-- `is_noise_profile_parameter`. -/
def isNoiseProfileParameter (name : String) : Bool := "profile_band".isPrefixOf name && name.endsWith "_tenth_db"

/-- `is_static_audio_parameter`. -/
def isStaticAudioParameter (effect parameter : String) : Bool :=
  if parameter = audioLookaheadParameter then
    ["audio_compressor", "audio_true_peak_limiter", "audio_denoise", "audio_declick"].contains effect
  else if parameter = "rms_window_milliseconds" then effect = "audio_compressor"
  else isNoiseProfileParameter parameter && effect = "audio_denoise"

/-- `chain_lookahead_milliseconds`. -/
def chainLookaheadMilliseconds (effects : List Effect) : ℤ :=
  ((effects.filter fun effect => isStaticAudioParameter effect.name audioLookaheadParameter).map
    fun effect =>
      let neutral := ((effectDescriptor effect.name).bind (·.parameter audioLookaheadParameter)).map
        EffectParameterDescriptor.neutral
      (((effect.staticIntegerParameter audioLookaheadParameter).or neutral).getD 0).toInt).sum

/-! ## The checks of an effect -/

/-- `validate_described_effect_parameter`. -/
def validateDescribedEffectParameter (effect : EffectDescriptor) (name : String) (value : ParamValue) :
    Except OpError Unit :=
  match effect.parameter name, value with
  | none, _ => .error (.unknownEffectParam effect.name name)
  | some parameter, .integer actual =>
    refuse (actual < parameter.min ∨ parameter.max < actual)
      (.effectParamOutOfRange effect.name name parameter.min parameter.max actual)
  | some _, _ => .error (.invalidEffectParamType effect.name name)

/-- The path of `cube_lut` is a text that is not blank. -/
def isLutPath : Option ParamValue → Bool
  | some (.text path) => !Text.isBlank path
  | _ => false

/-- `validate_effect_parameter`. -/
def validateEffectParameter (effect name : String) (value : ParamValue) : Except OpError Unit :=
  if effect = "cube_lut" ∧ name = "path" then refuse (isLutPath (some value) = false) .missingCubeLutPath
  else do
    let descriptor ← okOr (.unknownEffect effect) (effectDescriptor effect)
    validateDescribedEffectParameter descriptor name value

/-- `validate_effect`. -/
def validateEffect (effect : Effect) : Except OpError Unit := do
  let descriptor ← okOr (.unknownEffect effect.name) (effectDescriptor effect.name)
  refuse (effect.name = "cube_lut" ∧ isLutPath (effect.parameters.get? "path") = false)
    .missingCubeLutPath
  all (fun entry : String × ParamValue =>
      if effect.name = "cube_lut" ∧ entry.1 = "path" then .ok ()
      else validateDescribedEffectParameter descriptor entry.1 entry.2)
    effect.parameters.entries
  all (fun entry : String × AutomationCurve =>
      refuse ((descriptor.parameter entry.1).isNone) (.unknownEffectParam effect.name entry.1))
    effect.keyframes.entries

/-- `validate_enabled_curve`. -/
def validateEnabledCurve (effectName : String) (curve : AutomationCurve) : Except OpError Unit := do
  curve.validateOrdered.mapError (.invalidEffectAutomation effectName "enabled")
  all (fun key : Keyframe => refuse (key.value < 0 ∨ 1 < key.value)
      (.effectParamOutOfRange effectName "enabled" 0 1 key.value))
    curve.keyframes

/-- `validate_curve`. -/
def validateCurve (clip : ClipId) (clipDuration : TimeCode) (effectId : EffectId)
    (descriptor : EffectDescriptor) (name : String) (curve : AutomationCurve) : Except OpError Unit := do
  let audioOwner := isAudioEffect descriptor.name
  (if audioOwner then curve.validate else curve.validateOrdered).mapError
    (.invalidEffectAutomation descriptor.name name)
  refuse (isHoldOnlyParameter descriptor.name name = true ∧ ∃ key ∈ curve.keyframes, key.interpolation ≠ .hold)
    (.nonHoldKeyframeParameter descriptor.name name)
  all (fun key : Keyframe => do
      refuse (audioOwner = true ∧ clipDuration ≤ key.at_)
        (.effectKeyframeOutsideClip clip effectId name key.at_ clipDuration)
      validateDescribedEffectParameter descriptor name (.integer key.value))
    curve.keyframes

/-- `validate_curve_keyframe_policy`. -/
def validateCurveKeyframePolicy (effectName : String) (keyframes : KeyedMap String AutomationCurve) :
    Except OpError Unit :=
  if fromEffectName effectName ≠ some .curves then .ok ()
  else all (fun channel =>
      let animatedPointCount := (keyframes.get? s!"{channel}_point_count").any fun curve =>
        1 < curve.keyframes.length
      let animatedCoordinate := (List.range 16).any fun index =>
        (keyframes.get? s!"{channel}_x{index}").any (fun curve => curve.keyframes ≠ []) ||
        (keyframes.get? s!"{channel}_y{index}").any fun curve => curve.keyframes ≠ []
      refuse (animatedPointCount = true ∧ animatedCoordinate = true)
        (.curvePointCountAnimatedWithPoints effectName channel))
    colorCurveChannels

/-- The check of the curve that enables an effect. -/
def Effect.validateEnabled (effect : Effect) : Except OpError Unit :=
  match effect.enabledCurve with
  | some curve => validateEnabledCurve effect.name curve
  | none => .ok ()

/-- `validate_effect_automation`. -/
def validateEffectAutomation (clip : ClipId) (clipDuration : TimeCode) (effect : Effect) : Except OpError Unit := do
  let descriptor ← okOr (.unknownEffect effect.name) (effectDescriptor effect.name)
  all (fun entry : String × AutomationCurve => do
      refuse ((descriptor.parameter entry.1).isNone) (.unknownEffectParam effect.name entry.1)
      validateCurve clip clipDuration effect.id descriptor entry.1 entry.2)
    effect.keyframes.entries
  effect.validateEnabled
  validateCurveKeyframePolicy effect.name effect.keyframes

/-- The reference of `validate_lut_node_references`. -/
def validateLutReference (doc : Document) (clip : ClipId) (effect : EffectId) (value : Int64) : Except OpError Unit :=
  let lutAsset := value.toInt.toNat
  refuse (lutAsset = 0 ∨ (doc.lutAssets.find? fun asset => asset.id = lutAsset).isNone)
    (.missingLutAsset clip effect lutAsset)

/-- `validate_lut_node_references`. -/
def validateLutNodeReferences (doc : Document) (clip : ClipId) (effect : Effect) : Except OpError Unit :=
  if isLutColorNode effect.name = false then .ok ()
  else do
    validateLutReference doc clip effect.id
      (min (max (storedInteger effect "lut_asset_id" 0) 0) lutAssetIdDescriptor.max)
    all (fun key : Keyframe => validateLutReference doc clip effect.id key.value)
      (((effect.keyframes.get? "lut_asset_id").map AutomationCurve.keyframes).getD [])

end Kinewright.Model
