import Kinewright.Model.Document

/-!
# The effect registry

`effect.rs`: the built-in effects, the parameters each one takes, and the classes that the colour
pipeline and the audio graph put them in.
-/

namespace Kinewright.Model

/-- `EffectParameterDescriptor`: the accepted integers of one parameter, and its neutral value. -/
structure EffectParameterDescriptor where
  name : String
  min : Int64
  max : Int64
  neutral : Int64
deriving DecidableEq

structure EffectDescriptor where
  name : String
  parameters : List EffectParameterDescriptor
deriving DecidableEq

/-- `EffectDescriptor::parameter`. -/
def EffectDescriptor.parameter (descriptor : EffectDescriptor) (name : String) : Option EffectParameterDescriptor :=
  descriptor.parameters.find? fun parameter => parameter.name = name

def control (name : String) (min max neutral : Int64) : EffectParameterDescriptor := { name, min, max, neutral }

/-! ## The controls of the colour nodes -/

def colorNodeBypassDescriptor : EffectParameterDescriptor := control "bypass" 0 1 0

def lutAssetIdDescriptor : EffectParameterDescriptor := control "lut_asset_id" 0 9007199254740991 0

def lutInputEncodingDescriptor : EffectParameterDescriptor := control "input_encoding_token" 0 2 0

/-- The controls of a matte, before those of its windows. -/
def matteControls : List EffectParameterDescriptor :=
  [control "matte_enabled" 0 1 0, control "matte_window_count" 0 4 0,
   control "matte_combine_token" 0 1 0, control "matte_invert" 0 1 0,
   control "matte_mix_basis_points" 0 10000 10000, control "matte_qualifier_enabled" 0 1 0,
   control "matte_hue_center_centidegrees" 0 35999 0,
   control "matte_hue_width_centidegrees" 0 18000 18000,
   control "matte_hue_softness_centidegrees" 0 18000 0,
   control "matte_saturation_low_basis_points" 0 10000 0,
   control "matte_saturation_high_basis_points" 0 10000 10000,
   control "matte_saturation_softness_basis_points" 0 10000 0,
   control "matte_luma_low_basis_points" 0 10000 0,
   control "matte_luma_high_basis_points" 0 10000 10000,
   control "matte_luma_softness_basis_points" 0 10000 0]

/-- The controls of one window of a matte. -/
def matteWindowParameters (index : ℕ) : List EffectParameterDescriptor :=
  let row (suffix : String) := control s!"matte_window{index}_{suffix}"
  [row "shape_token" 1 2 1, row "center_x_basis_points" (-10000) 20000 5000,
    row "center_y_basis_points" (-10000) 20000 5000, row "half_width_basis_points" 1 10000 2500,
    row "half_height_basis_points" 1 10000 2500, row "rotation_centidegrees" (-18000) 18000 0,
    row "feather_basis_points" 0 10000 0, row "invert" 0 1 0]

/-- `with_matte_parameters`: a node that can be windowed takes them after its own. -/
def withMatteParameters (parameters : List EffectParameterDescriptor) : List EffectParameterDescriptor :=
  parameters ++ matteControls ++ (List.range 4).flatMap matteWindowParameters

/-- `PRIMARY_CORRECTION_PARAMETERS`. -/
def primaryCorrectionParameters : List EffectParameterDescriptor :=
  [control "exposure_milli_stops" (-5000) 5000 0, control "temperature_percent" (-100) 100 0,
   control "tint_percent" (-100) 100 0, control "contrast_percent" (-100) 100 0,
   control "contrast_pivot_basis_points" 0 10000 5000, control "blacks_percent" (-100) 100 0,
   control "shadows_percent" (-100) 100 0, control "highlights_percent" (-100) 100 0,
   control "whites_percent" (-100) 100 0, control "saturation_percent" (-100) 100 0]

/-- `COLOR_WHEELS_PARAMETERS`. -/
def colorWheelsParameters : List EffectParameterDescriptor :=
  let channels := ["master", "red", "green", "blue"]
  channels.map (fun channel => control s!"lift_{channel}_basis_points" (-2000) 2000 0) ++
    channels.map (fun channel => control s!"gamma_{channel}_thousandths" 100 4000 1000) ++
    channels.map (fun channel => control s!"gain_{channel}_thousandths" 0 4000 1000) ++
    [colorNodeBypassDescriptor]

/-- The controls of one curve of `color_curves`: a point at black, the others at white. -/
def curveParameters (channel : String) : List EffectParameterDescriptor :=
  control s!"{channel}_point_count" 2 16 2 :: (List.range 16).flatMap fun index =>
    let neutral : Int64 := if index = 0 then 0 else 10000
    [control s!"{channel}_x{index}" (-2000) 12000 neutral, control s!"{channel}_y{index}" (-2000) 12000 neutral]

/-- `COLOR_CURVES_PARAMETERS`. -/
def colorCurvesParameters : List EffectParameterDescriptor :=
  ["master", "red", "green", "blue"].flatMap curveParameters ++ [colorNodeBypassDescriptor]

/-- The controls of a lookup table, applied at no less than the given strength. -/
def lutParameters (minimumMix : Int64) : List EffectParameterDescriptor :=
  [lutAssetIdDescriptor, control "mix_basis_points" minimumMix 10000 10000,
    lutInputEncodingDescriptor, colorNodeBypassDescriptor]

/-! ## The controls of the audio nodes -/

def audioBypassDescriptor : EffectParameterDescriptor := control "bypass" 0 1 0

/-- The names of the bands of a noise profile, `01` to `31`. -/
def noiseProfileParameterNames : List String :=
  (List.range 31).map fun band =>
    let zero := if band < 9 then "0" else ""
    s!"profile_band{zero}{band + 1}_tenth_db"

/-- `denoise_parameters`. -/
def denoiseParameters : List EffectParameterDescriptor :=
  [audioBypassDescriptor, control "reduction_tenth_db" 0 400 0,
    control "floor_offset_tenth_db" (-200) 200 0, control "smoothing_milliseconds" 0 200 50,
    control "lookahead_milliseconds" 12 12 12] ++
    noiseProfileParameterNames.map fun name => control name (-1200) 0 (-1200)

/-! ## The registry -/

/-- `EFFECT_DESCRIPTORS`. -/
def effectDescriptors : List EffectDescriptor :=
  [⟨"brightness", [control "percent" (-100) 100 0]⟩, ⟨"contrast", [control "percent" (-100) 100 0]⟩,
    ⟨"saturation", [control "percent" (-100) 100 0]⟩,
    ⟨"opacity", [control "percent" 0 100 100]⟩,
    ⟨"transform", [control "scale_percent" 1 400 100, control "x_percent" (-100) 100 0,
       control "y_percent" (-100) 100 0, control "scale_x_percent" 1 400 100,
       control "scale_y_percent" 1 400 100, control "rotation_centidegrees" (-36000) 36000 0,
       control "anchor_x_basis_points" 0 10000 5000, control "anchor_y_basis_points" 0 10000 5000,
       control "x_basis_points" (-10000) 10000 0, control "y_basis_points" (-10000) 10000 0,
       control "scale_fine_hundredths" 100 40000 10000]⟩,
    ⟨"crop", [control "left_percent" 0 45 0, control "right_percent" 0 45 0,
       control "top_percent" 0 45 0, control "bottom_percent" 0 45 0]⟩,
    ⟨"reframe", [control "target_aspect_basis_points" 1000 40000 17778, control "focus_x_percent" 0 100 50,
       control "focus_y_percent" 0 100 50, control "focus_x_basis_points" 0 10000 5000,
       control "focus_y_basis_points" 0 10000 5000]⟩,
    ⟨"color_grade", [control "exposure_milli_stops" (-5000) 5000 0, control "temperature_percent" (-100) 100 0,
       control "tint_percent" (-100) 100 0]⟩,
    ⟨"primary_correction", withMatteParameters primaryCorrectionParameters⟩,
    ⟨"color_wheels", withMatteParameters colorWheelsParameters⟩,
    ⟨"color_curves", withMatteParameters colorCurvesParameters⟩,
    ⟨"technical_lut", lutParameters 10000⟩,
    ⟨"creative_look", withMatteParameters (lutParameters 0)⟩,
    ⟨"look_lut", [control "preset_token" 0 4 0, control "intensity_percent" 0 100 100]⟩,
    ⟨"cube_lut", [control "intensity_percent" 0 100 100]⟩,
    ⟨"mask", [control "shape_token" 1 2 1, control "center_x_percent" 0 100 50,
       control "center_y_percent" 0 100 50, control "width_percent" 1 200 100,
       control "height_percent" 1 200 100, control "feather_percent" 0 100 0,
       control "invert" 0 1 0]⟩,
    ⟨"chroma_key", [control "key_red" 0 255 0, control "key_green" 0 255 255, control "key_blue" 0 255 0,
       control "threshold_percent" 0 100 15, control "softness_percent" 0 100 10,
       control "spill_percent" 0 100 50]⟩,
    ⟨"audio_gain", [control "gain_tenth_db" (-600) 120 0, audioBypassDescriptor]⟩,
    ⟨"audio_eq", [control "low_gain_tenth_db" (-240) 240 0, control "mid_gain_tenth_db" (-240) 240 0,
       control "high_gain_tenth_db" (-240) 240 0, audioBypassDescriptor]⟩,
    ⟨"audio_compressor", [control "threshold_tenth_db" (-600) 0 0, control "ratio_hundredths" 100 2000 100,
       control "attack_milliseconds" 1 1000 10, control "release_milliseconds" 10 5000 250,
       control "makeup_gain_tenth_db" (-120) 240 0, control "knee_tenth_db" 0 240 0,
       control "detector" 0 1 0, control "rms_window_milliseconds" 1 100 10,
       control "lookahead_milliseconds" 0 10 0, audioBypassDescriptor]⟩,
    ⟨"audio_ducking", [control "threshold_tenth_db" (-600) 0 (-300), control "reduction_tenth_db" 0 600 120,
       control "attack_milliseconds" 1 1000 20, control "release_milliseconds" 10 5000 300,
       audioBypassDescriptor]⟩,
    ⟨"audio_limiter", [control "ceiling_tenth_db" (-120) 0 (-10), audioBypassDescriptor]⟩,
    ⟨"audio_parametric_eq", [audioBypassDescriptor, control "high_pass_hertz" 0 1000 0,
       control "low_shelf_hertz" 20 1000 100, control "low_shelf_gain_tenth_db" (-240) 240 0,
       control "band1_hertz" 20 20000 120, control "band1_gain_tenth_db" (-240) 240 0,
       control "band1_q_hundredths" 10 1800 71, control "band2_hertz" 20 20000 500,
       control "band2_gain_tenth_db" (-240) 240 0, control "band2_q_hundredths" 10 1800 71,
       control "band3_hertz" 20 20000 2000, control "band3_gain_tenth_db" (-240) 240 0,
       control "band3_q_hundredths" 10 1800 71, control "band4_hertz" 20 20000 8000,
       control "band4_gain_tenth_db" (-240) 240 0, control "band4_q_hundredths" 10 1800 71,
       control "high_shelf_hertz" 1000 20000 8000,
       control "high_shelf_gain_tenth_db" (-240) 240 0,
       control "output_gain_tenth_db" (-240) 240 0]⟩,
    ⟨"audio_gate", [audioBypassDescriptor, control "threshold_tenth_db" (-600) 0 (-600),
       control "ratio_hundredths" 100 2000 100, control "range_tenth_db" 0 800 0,
       control "attack_milliseconds" 1 1000 1, control "hold_milliseconds" 0 1000 10,
       control "release_milliseconds" 10 5000 100]⟩,
    ⟨"audio_true_peak_limiter", [audioBypassDescriptor, control "ceiling_tenth_db" (-120) 0 0,
       control "lookahead_milliseconds" 1 10 5, control "release_milliseconds" 1 1000 50,
       control "true_peak" 0 1 1]⟩,
    ⟨"audio_denoise", denoiseParameters⟩,
    ⟨"audio_hum_removal", [audioBypassDescriptor, control "fundamental_hertz" 50 60 50,
       control "harmonic_count" 1 10 1, control "depth_tenth_db" (-600) 0 0,
       control "notch_q_hundredths" 100 1800 1200]⟩,
    ⟨"audio_declick", [audioBypassDescriptor, control "max_click_milliseconds" 0 1 0,
       control "detector_threshold_tenth_db" 60 400 240, control "lookahead_milliseconds" 3 3 3]⟩]

/-- `effect_descriptor`. -/
def effectDescriptor (name : String) : Option EffectDescriptor :=
  effectDescriptors.find? fun descriptor => descriptor.name = name

theorem name_of_effectDescriptor {name : String} {descriptor : EffectDescriptor}
    (h : effectDescriptor name = some descriptor) : descriptor.name = name := by
  have hname := List.find?_some h
  exact of_decide_eq_true hname

/-- `is_audio_effect`. -/
def isAudioEffect (name : String) : Bool :=
  ["audio_gain", "audio_eq", "audio_compressor", "audio_ducking", "audio_limiter",
    "audio_parametric_eq", "audio_gate", "audio_true_peak_limiter", "audio_denoise",
    "audio_hum_removal", "audio_declick"].contains name

inductive ColorNodeKind
  | technicalLut
  | primary
  | wheels
  | curves
  | creativeLook
deriving DecidableEq

/-- `ColorNodeKind::from_effect_name`. -/
def ColorNodeKind.fromEffectName (name : String) : Option ColorNodeKind :=
  if name = "technical_lut" then some .technicalLut
  else if name = "primary_correction" then some .primary
  else if name = "color_wheels" then some .wheels
  else if name = "color_curves" then some .curves
  else if name = "creative_look" then some .creativeLook
  else none

end Kinewright.Model
