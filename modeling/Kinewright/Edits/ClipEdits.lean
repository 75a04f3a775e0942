import Kinewright.Edits.Mix

/-!
# Edits of one clip

`operation.rs`: the edits that change a clip where it is, its effects, its title, its sound and its
transition.
-/

namespace Kinewright.Edits

open Fallible Model

/-! ## The place of a clip -/

/-- Where a clip is. -/
structure Place where
  trackIndex : ℕ
  clipIndex : ℕ
  track : Track
  clip : Clip

/-- `find_clip`, and what is there. -/
def placeOf (doc : Document) (id : ClipId) : Except OpError Place := do
  let (trackIndex, clipIndex) ← okOr (.missingClip id) (findClip id doc.tracks)
  let track ← okOr (.missingClip id) doc.tracks[trackIndex]?
  let clip ← okOr (.missingClip id) track.clips[clipIndex]?
  .ok { trackIndex, clipIndex, track, clip }

/-- The document with other clips on the track of the place. -/
def Place.setClips (place : Place) (doc : Document) (clips : List Clip) : Document :=
  { doc with tracks := doc.tracks.set place.trackIndex { place.track with clips } }

/-- The clip of the id becomes another one. -/
def editClip (doc : Document) (id : ClipId) (edit : Track → Clip → Except OpError Clip) : Except OpError Document := do
  let place ← placeOf doc id
  let clip ← edit place.track place.clip
  .ok (place.setClips doc (place.track.clips.set place.clipIndex clip))

/-- `survive_clip_edit`, of the clip of the id. -/
def surviveEdit (doc : Document) (id : ClipId) (edit : Track → Clip → Except OpError (Clip × TimeCode)) :
    Except OpError Document :=
  editClip doc id fun track clip => do
    let (edited, delta) ← edit track clip
    doc.surviveClipEdit edited delta

/-! ## Inserting effects -/

/-- A clip may get one colour node more. -/
def checkColorNodeLimits (clip : ClipId) (effects : List Effect) (name : String) : Except OpError Unit := do
  refuse (isManagedColorNode name = true ∧ 16 ≤ managedColorNodeCount effects)
    (.tooManyColorNodes clip (managedColorNodeCount effects + 1))
  refuse (isLutColorNode name = true ∧ 4 ≤ lutNodeCount effects) (.tooManyLutNodes clip (lutNodeCount effects + 1))

/-- `insert_effect`, without an index at the end. -/
def insertEffect (doc : Document) (clip : ClipId) (index : Option ℕ) (effect : Effect) : Except OpError Document := do
  validateEffect effect
  refuse (isAudioEffect effect.name = true) (.audioEffectOnClip clip effect.name)
  validateColorCurvePoints effect
  editClip doc clip fun _ found => do
    let clipDuration ← doc.clipDuration found
    validateEffectAutomation clip clipDuration effect
    validateLutNodeReferences doc clip effect
    refuse (effect.id ∈ found.effects.map Effect.id) (.duplicateEffect clip effect.id)
    let position := index.getD found.effects.length
    refuse (found.effects.length < position) (.effectIndexOutOfRange clip position found.effects.length)
    checkColorNodeLimits clip found.effects effect.name
    let effects := found.effects.insertIdx position effect
    checkStageOrder clip (colorNodes effects)
    .ok { found with effects }

/-- `canonicalize_legacy_color_grade_name`, on an effect. -/
def canonicalizeLegacyName (effect : Effect) : Effect :=
  if effect.name = "color_grade" then { effect with name := "primary_correction" } else effect

/-- `add_effect`, of the effect under its canonical name. -/
def addEffect (doc : Document) (clip : ClipId) (effect : Effect) : Except OpError Document :=
  insertEffect doc clip none (canonicalizeLegacyName effect)

/-- The node that a legacy look is converted to. -/
def convertedLook (legacy : Effect) (lutAsset : LutAssetId) (mixBasisPoints : Int64) : Effect :=
  { legacy with
    name := ColorNodeKind.creativeLook.effectName
    parameters := (KeyedMap.empty.insert "lut_asset_id"
      (.integer (if lutAsset < 2 ^ 63 then Int64.ofNat lutAsset else Int64.maxValue))).insert
        "mix_basis_points" (.integer mixBasisPoints)
    keyframes := .empty }

/-- `convert_legacy_look`. -/
def convertLegacyLook (doc : Document) (clip : ClipId) (effect : EffectId) (lutAsset : LutAssetId)
    (mixBasisPoints : Int64) : Except OpError Document :=
  editClip doc clip fun _ found => do
    let legacy ← okOr (.missingEffect clip effect) (found.effects.find? fun other => other.id = effect)
    refuse (["look_lut", "cube_lut"].contains legacy.name = false) (.notALegacyLook clip effect legacy.name)
    refuse (lutAsset ∉ doc.lutAssets.map LutAsset.id) (.missingLutAsset clip effect lutAsset)
    let converted := convertedLook legacy lutAsset mixBasisPoints
    validateEffect converted
    checkColorNodeLimits clip found.effects converted.name
    let effects := found.effects.modifyFirst (fun other => other.id = effect) fun _ => converted
    checkStageOrder clip (colorNodes effects)
    .ok { found with effects }

/-! ## Changing effects -/

/-- The first effect of the id becomes another one. -/
def editEffect (clip : Clip) (effect : EffectId) (edit : Effect → Except OpError Effect) : Except OpError Clip := do
  let old ← okOr (.missingEffect clip.id effect) (clip.effects.find? fun other => other.id = effect)
  let edited ← edit old
  .ok { clip with effects := clip.effects.modifyFirst (fun other => other.id = effect) fun _ => edited }

/-- `remove_effect`. -/
def removeEffect (doc : Document) (clip : ClipId) (effect : EffectId) : Except OpError Document :=
  editClip doc clip fun _ found => do
    let effects ← removeFirst (.missingEffect clip effect) (fun other => other.id = effect) found.effects
    .ok { found with effects }

/-- The points of the curves of a colour node, if the parameter is set. -/
def checkCurvePoints (effect : Effect) (name : String) (value : ParamValue) : Except OpError Unit :=
  validateColorCurvePoints { effect with parameters := effect.parameters.insert name value }

/-- The lookup table that a parameter names. -/
def checkLutParameter (doc : Document) (clip : ClipId) (effect : Effect) (name : String)
    (value : ParamValue) : Except OpError Unit :=
  if isLutColorNode effect.name = true ∧ name = "lut_asset_id" then
    match value with
    | .integer stored => validateLutReference doc clip effect.id stored
    | _ => .error (.missingLutAsset clip effect.id 0)
  else .ok ()

/-- `set_effect_param`. -/
def setEffectParam (doc : Document) (clip : ClipId) (effect : EffectId) (name : String)
    (value : ParamValue) : Except OpError Document :=
  editClip doc clip fun _ found =>
    editEffect found effect fun old => do
      validateEffectParameter old.name name value
      checkCurvePoints old name value
      checkLutParameter doc clip old name value
      .ok { old with parameters := old.parameters.insert name value }

/-- The descriptor of a parameter of an effect. -/
def describedParameter (effect : Effect) (name : String) : Except OpError EffectDescriptor :=
  match effectDescriptor effect.name with
  | some descriptor =>
    if (descriptor.parameter name).isSome then .ok descriptor
    else .error (.unknownEffectParam effect.name name)
  | none => .error (.unknownEffectParam effect.name name)

/-- The curve is put on the effect, after the checks of a whole curve. -/
def putKeyframes (clip : ClipId) (clipDuration : TimeCode) (effect : Effect) (name : String)
    (curve : AutomationCurve) : Except OpError Effect := do
  let descriptor ← describedParameter effect name
  validateCurve clip clipDuration effect.id descriptor name curve
  let keyframes := effect.keyframes.insert name curve
  validateCurveKeyframePolicy effect.name keyframes
  .ok { effect with keyframes }

/-- The curve that enables an effect is put on it. -/
def putEnabledCurve (effect : Effect) (curve : AutomationCurve) : Except OpError Effect := do
  validateEnabledCurve effect.name curve
  .ok { effect with enabledCurve := some curve }

/-- `set_effect_keyframes`. -/
def setEffectKeyframes (doc : Document) (clip : ClipId) (effect : EffectId) (name : String)
    (curve : AutomationCurve) : Except OpError Document :=
  editClip doc clip fun _ found => do
    let clipDuration ← doc.clipDuration found
    editEffect found effect fun old =>
      if name = "enabled" then putEnabledCurve old curve
      else putKeyframes clip clipDuration old name curve

/-- `clear_effect_keyframes`. -/
def clearEffectKeyframes (doc : Document) (clip : ClipId) (effect : EffectId) (name : String) :
    Except OpError Document :=
  editClip doc clip fun _ found =>
    editEffect found effect fun old =>
      if name = "enabled" then .ok { old with enabledCurve := none }
      else do
        let _ ← describedParameter old name
        .ok { old with keyframes := old.keyframes.erase name }

/-- `insert_key_sorted`: a key of the same frame is replaced. -/
def insertKeySorted (curve : Option AutomationCurve) (key : Keyframe) : AutomationCurve where
  keyframes := insertKey key ((curve.map AutomationCurve.keyframes).getD [])

/-- `upsert_effect_keyframe`. -/
def upsertEffectKeyframe (doc : Document) (clip : ClipId) (effect : EffectId) (name : String)
    (key : Keyframe) : Except OpError Document :=
  editClip doc clip fun _ found => do
    let clipDuration ← doc.clipDuration found
    editEffect found effect fun old =>
      if name = "enabled" then putEnabledCurve old (insertKeySorted old.enabledCurve key)
      else putKeyframes clip clipDuration old name (insertKeySorted (old.keyframes.get? name) key)

/-- The curve without its key at the frame, and that key. -/
def takeKey (curve : AutomationCurve) (at_ : TimeCode) : Option (Keyframe × AutomationCurve) :=
  (curve.keyframes.find? fun key => key.at_ = at_).map fun key =>
    (key, { keyframes := curve.keyframes.eraseP fun key => key.at_ = at_ })

/-- The key is removed from the curve that enables the effect. The value of the last one is kept. -/
def removeEnabledKey (effect : Effect) (at_ : TimeCode) : Effect :=
  match effect.enabledCurve.bind (takeKey · at_) with
  | none => effect
  | some (removed, rest) =>
    if rest.keyframes = [] then { effect with enabled := 1 ≤ removed.value, enabledCurve := none }
    else { effect with enabledCurve := some rest }

/-- The key is removed from the curve of a parameter. The value of the last one is kept. -/
def removeParameterKey (effect : Effect) (name : String) (at_ : TimeCode) : Except OpError Effect := do
  let _ ← describedParameter effect name
  match (effect.keyframes.get? name).bind (takeKey · at_) with
  | none => .ok effect
  | some (removed, rest) =>
    if rest.keyframes = [] then do
      let value := ParamValue.integer removed.value
      validateEffectParameter effect.name name value
      checkCurvePoints effect name value
      .ok { effect with
        parameters := effect.parameters.insert name value
        keyframes := effect.keyframes.erase name }
    else .ok { effect with keyframes := effect.keyframes.insert name rest }

/-- `remove_effect_keyframe`. -/
def removeEffectKeyframe (doc : Document) (clip : ClipId) (effect : EffectId) (name : String)
    (at_ : TimeCode) : Except OpError Document :=
  editClip doc clip fun _ found =>
    editEffect found effect fun old =>
      if name = "enabled" then .ok (removeEnabledKey old at_) else removeParameterKey old name at_

/-- `set_effect_enabled`. -/
def setEffectEnabled (doc : Document) (clip : ClipId) (effect : EffectId) (enabled : Bool) : Except OpError Document :=
  editClip doc clip fun _ found => editEffect found effect fun old => .ok { old with enabled }

/-! ## Copying effects -/

/-- The index of the occurrence of the name among the effects. -/
def slotOf (effects : List Effect) (name : String) (occurrence : ℕ) : Option ℕ :=
  ((effects.zipIdx.filter fun entry => entry.1.name = name)[occurrence]?).map Prod.snd

/-- The loop of `copy_clip_attributes` over the effects of the source, after those with the names `seen`. -/
def copyEffects (target : List Effect) (includeKeyframes : Bool) :
    List Effect → List Effect → List String → EffectId → Except OpError (List Effect)
  | [], result, _, _ => .ok result
  | effect :: effects, result, seen, nextId => match slotOf target effect.name (seen.count effect.name) with
    | some index => copyEffects target includeKeyframes effects (result.modify index fun old =>
          { effect with
            id := old.id
            keyframes := if includeKeyframes then effect.keyframes else old.keyframes })
        (effect.name :: seen) nextId
    | none =>
      if nextId + 1 < 2 ^ 64 then
        copyEffects target includeKeyframes effects
          (result ++ [{ effect with
            id := nextId + 1
            keyframes := if includeKeyframes then effect.keyframes else .empty }])
          (effect.name :: seen) (nextId + 1)
      else .error .timeOverflow

/-- `copy_clip_attributes`. -/
def copyClipAttributes (doc : Document) (source target : ClipId) (names : Option (List String))
    (includeKeyframes : Bool) : Except OpError Document := do
  let found ← placeOf doc source
  editClip doc target fun _ clip => do
    all (fun name => refuse ((effectDescriptor name).isNone) (.unknownEffect name)) (names.getD [])
    let inScope := found.clip.effects.filter fun effect =>
      names.all fun names => names.contains effect.name
    let lastId := (clip.effects.map Effect.id).max?.getD 0
    let effects ← copyEffects clip.effects includeKeyframes inScope clip.effects [] lastId
    .ok { clip with effects }

/-! ## Titles -/

/-- `u8::try_from`, of a parameter of a title. -/
def toToken (name : String) (value : Int64) : Except OpError UInt8 :=
  if 0 ≤ value.toInt ∧ value.toInt < 256 then .ok (UInt8.ofNat value.toInt.toNat)
  else .error (.titleParamOutOfRange name 0 255 value)

/-- The match of `set_title_param`. -/
def setTitle (title : Title) (name : String) : ParamValue → Except OpError Title
  | .text value => if name = "text" then .ok { title with text := value } else if name = "position" then do
      let position ← okOr (.invalidTitleParamType name) (TitlePosition.ofStr value)
      .ok { title with position := position, captionPreset := none }
    else if name = "caption_preset" then
      if value = "none" then .ok { title with captionPreset := none }
      else do
        let preset ← okOr (.invalidTitleParamType name) (CaptionPreset.ofStr value)
        .ok { preset.title title.text with
          fadeInFrames := title.fadeInFrames
          fadeOutFrames := title.fadeOutFrames }
    else .error (.invalidTitleParamType name)
  | .integer value =>
    if name = "font_size_token" then do
      let token ← toToken name value
      .ok { title with fontSizeToken := token, captionPreset := none }
    else if name = "color_token" then do
      let token ← toToken name value
      .ok { title with colorToken := token, captionPreset := none }
    else if name = "fade_in_frames" then .ok { title with fadeInFrames := value }
    else if name = "fade_out_frames" then .ok { title with fadeOutFrames := value }
    else .error (.invalidTitleParamType name)
  | .boolean value =>
    if name = "background_scrim" then
      .ok { title with backgroundScrim := value, captionPreset := none }
    else .error (.invalidTitleParamType name)

/-- `set_title_param`. -/
def setTitleParam (doc : Document) (clip : ClipId) (name : String) (value : ParamValue) : Except OpError Document :=
  editClip doc clip fun _ found => do
    let duration ← doc.clipDuration found
    match found.content with
    | .title title => do
      validateTitleParameter name value
      let edited ← setTitle title name value
      validateTitle clip edited duration
      .ok { found with content := .title edited }
    | _ => .error (.notTitleClip clip)

/-! ## The other fields -/

/-- `set_clip_enabled`. -/
def setClipEnabled (doc : Document) (clip : ClipId) (enabled : Bool) : Except OpError Document :=
  editClip doc clip fun _ found => .ok { found with enabled }

/-- `set_clip_enabled_curve`. -/
def setClipEnabledCurve (doc : Document) (clip : ClipId) (curve : Option AutomationCurve) : Except OpError Document :=
  editClip doc clip fun _ found => do
    all (validateClipEnabledCurve clip) curve.toList
    .ok { found with enabledCurve := curve }

/-- `set_clip_audio`. -/
def setClipAudio (doc : Document) (clip : ClipId) (gainTenthDb : Int32) (fadeIn fadeOut : TimeCode) :
    Except OpError Document :=
  editClip doc clip fun _ found => do
    refuse (found.content.isMedia = false) (.clipHasNoAudio found.content clip)
    let clipDuration ← doc.clipDuration found
    validateClipAudioValues clip gainTenthDb fadeIn fadeOut clipDuration
    .ok { found with
      audioGainTenthDb := gainTenthDb
      audioFadeInFrames := fadeIn
      audioFadeOutFrames := fadeOut }

/-- `set_clip_gain_envelope`. -/
def setClipGainEnvelope (doc : Document) (clip : ClipId) (curve : Option AutomationCurve) : Except OpError Document :=
  editClip doc clip fun _ found => do
    refuse (found.content.isMedia = false) (.clipHasNoAudio found.content clip)
    let clipDuration ← doc.clipDuration found
    all (validateClipGainCurve clip · clipDuration) curve.toList
    .ok { found with audioGainCurve := curve }

/-- `add_transition`. -/
def addTransition (doc : Document) (clip : ClipId) (transition : Transition) : Except OpError Document :=
  editClip doc clip fun _ found => do
    refuse found.transitionIn.isSome (.duplicateTransition clip)
    validateTransition doc found transition
    .ok { found with transitionIn := some transition }

/-- `remove_transition`. -/
def removeTransition (doc : Document) (clip : ClipId) : Except OpError Document :=
  editClip doc clip fun _ found => do
    refuse found.transitionIn.isNone (.missingTransition clip)
    .ok { found with transitionIn := none }

/-- `set_clip_speed`. -/
def setClipSpeed (doc : Document) (clip : ClipId) (speedPercent : UInt32) : Except OpError Document := do
  validateClipSpeed speedPercent
  surviveEdit doc clip fun _ found => do
    refuse (found.content.isMedia = false) (.speedOnNonMediaClip clip)
    .ok ({ found with speedPercent }, 0)

/-- `SetClipBlendMode`. -/
def setClipBlendMode (doc : Document) (clip : ClipId) (blendMode : BlendMode) : Except OpError Document :=
  editClip doc clip fun _ found => .ok { found with blendMode }

/-- `SetSolidColor`. -/
def setSolidColor (doc : Document) (clip : ClipId) (color : SolidColor) : Except OpError Document :=
  editClip doc clip fun _ found =>
    match found.content with
    | .solid _ => .ok { found with content := .solid color }
    | _ => .error (.solidColorOnNonSolidClip clip)

end Kinewright.Edits
