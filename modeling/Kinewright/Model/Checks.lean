import Kinewright.Model.EffectRules
import Kinewright.Model.Validate

/-!
# The checks of a document

`operation.rs`, `title.rs`, `transition.rs`, `model.rs`: what `validate_document` checks beside the places
of the clips.
-/

namespace Kinewright.Model

open Fallible CaptionPreset

/-! ## Assets -/

/-- `is_canonical_sha256`. -/
def isCanonicalSha256 (hash : String) : Bool :=
  hash.utf8ByteSize = 64 && hash.toList.all fun c => c.isDigit || (97 ≤ c.toNat && c.toNat ≤ 102)

/-- `validate_source_fingerprint`. -/
def validateSourceFingerprint (asset : AssetId) (fingerprint : MediaSourceFingerprint) : Except OpError Unit :=
  match fingerprint.contentSha256, fingerprint.byteLen with
  | none, none => .ok ()
  | some hash, some byteLen => do
    refuse (isCanonicalSha256 hash = false) (.invalidSourceFingerprintHash asset)
    refuse (byteLen = 0) (.invalidSourceFingerprintByteLength asset)
  | _, _ => .error (.sourceFingerprintIncomplete asset)

/-- `validate_color_description`. -/
def validateColorDescription (description : ColorDescription) : Except OpError Unit :=
  refuse (10000 < description.confidenceBasisPoints) (.colorConfidenceOutOfRange description.confidenceBasisPoints)

/-- What `validate_asset` checks after the rate and the duration. -/
def validateAssetData (asset : MediaAsset) : Except OpError Unit := do
  refuse (∃ resolution ∈ asset.resolution, resolution.1 = 0 ∨ resolution.2 = 0) .invalidResolution
  validateSourceFingerprint asset.id asset.sourceFingerprint
  validateColorDescription asset.colorDescription
  all validateColorDescription asset.assumedFrom.toList

/-- `LutAssetKind::as_str`. -/
def LutAssetKind.asStr : LutAssetKind → String
  | .cube3d => "cube_3d"
  | .cube1d => "cube_1d"

/-- The check of one channel of a domain. -/
def validateLutDomain (entry : String × Int64 × Int64) : Except OpError Unit :=
  refuse (entry.2.2 ≤ entry.2.1) (.invalidLutAssetMetadata entry.1
    (toString entry.2.1 ++ ".." ++ toString entry.2.2) "domain_min_millionths < domain_max_millionths")

/-- `validate_lut_asset`. -/
def validateLutAsset (asset : LutAsset) : Except OpError Unit := do
  refuse (asset.id = 0 ∨ 9007199254740991 < asset.id)
    (.invalidLutAssetMetadata "id" (toString asset.id) "1..=9007199254740991")
  refuse (isCanonicalSha256 asset.sha256 = false) (.invalidLutAssetHash asset.id asset.sha256)
  refuse (asset.title = "") (.invalidLutAssetMetadata "title" "" "a non-empty title")
  refuse (asset.kind ≠ .cube3d) (.invalidLutAssetMetadata "kind" asset.kind.asStr "cube_3d")
  refuse (asset.size < 2 ∨ 65 < asset.size) (.invalidLutAssetMetadata "size" (toString asset.size) "2..=65")
  refuse (asset.byteLen = 0) (.invalidLutAssetMetadata "byte_len" "0" "a positive byte length")
  all validateLutDomain [("domain_r_millionths", asset.domainMinMillionths.1, asset.domainMaxMillionths.1),
      ("domain_g_millionths", asset.domainMinMillionths.2.1, asset.domainMaxMillionths.2.1),
      ("domain_b_millionths", asset.domainMinMillionths.2.2, asset.domainMaxMillionths.2.2)]

/-! ## The catalogue -/

/-- The check of an asset of a bin. -/
def validateBinAsset (doc : Document) (bins : List MediaBin) (bin : MediaBin) (before : List AssetId)
    (asset : AssetId) : Except OpError Unit := do
  refuse ((doc.asset asset).isNone) (.missingAsset asset)
  refuse (asset ∈ before) (.duplicateBinAsset bin.id asset)
  match bins.find? fun other => asset ∈ other.assets with
  | some first => .error (.assetInMultipleBins asset first.id bin.id)
  | none => .ok ()

/-- The check of a bin after the bins before it. -/
def validateBin (doc : Document) (before : List MediaBin) (bin : MediaBin) : Except OpError Unit := do
  refuse (bin.id ∈ before.map MediaBin.id) (.duplicateBin bin.id)
  refuse (Text.isBlank bin.name = true) (.emptyBinName bin.id)
  refuse (bin.parent = some bin.id) (.binSelfParent bin.id)
  allAfter (validateBinAsset doc before bin) [] bin.assets

/-- The way from a bin to the top, which visits no bin twice. Every step visits another bin. -/
def checkAncestors (bins : List MediaBin) : ℕ → List BinId → Option BinId → Except OpError Unit
  | _, _, none => .ok ()
  | 0, _, some id => .error (.binCycle id)
  | fuel + 1, seen, some id => if id ∈ seen then .error (.binCycle id)
    else checkAncestors bins fuel (id :: seen) ((bins.find? fun bin => bin.id = id).bind MediaBin.parent)

/-- The check of the place of a bin among the others. -/
def validateBinParent (bins : List MediaBin) (bin : MediaBin) : Except OpError Unit := do
  all (fun parent => refuse (parent ∉ bins.map MediaBin.id) (.missingBin parent)) bin.parent.toList
  checkAncestors bins (bins.length + 2) [] (some bin.id)

/-- The check of a string-out after those before it. -/
def validateStringOut (doc : Document) (before : List StringOut) (stringOut : StringOut) : Except OpError Unit := do
  refuse (stringOut.id ∈ before.map StringOut.id) (.duplicateStringOut stringOut.id)
  refuse (Text.isBlank stringOut.name = true ∨ stringOut.selects = []) (.invalidStringOut stringOut.id)
  all (fun select : SourceSelect => do
      let asset ← okOr (.missingAsset select.asset) (doc.asset select.asset)
      validateSourceRange asset select.source)
    stringOut.selects

/-- The check of a sync group after those before it. -/
def validateSyncGroup (doc : Document) (before : List SyncGroup) (group : SyncGroup) : Except OpError Unit := do
  refuse (group.id ∈ before.map SyncGroup.id) (.duplicateSyncGroup group.id)
  refuse (Text.isBlank group.name = true ∨ group.members.length < 2) (.invalidSyncGroup group.id)
  allAfter (fun before (member : SyncGroupMember) => do
      refuse ((doc.asset member.asset).isNone) (.missingAsset member.asset)
      refuse (member.asset ∈ before.map SyncGroupMember.asset) (.duplicateSyncGroupAsset group.id member.asset)
      refuse (Text.isBlank member.angleName = true) (.emptySyncAngle group.id member.asset))
    [] group.members

/-- `validate_catalog`. -/
def validateCatalog (doc : Document) : Except OpError Unit := do
  allAfter (validateBin doc) [] doc.catalog.bins
  all (validateBinParent doc.catalog.bins) doc.catalog.bins
  allAfter (validateStringOut doc) [] doc.catalog.stringOuts
  allAfter (validateSyncGroup doc) [] doc.catalog.syncGroups

/-! ## Titles -/

/-- `TitlePosition::as_str`. -/
def TitlePosition.asStr : TitlePosition → String
  | .lowerThird => "lower_third"
  | .center => "center"
  | .top => "top"

/-- `TitlePosition::from_str`. -/
def TitlePosition.ofStr (value : String) : Option TitlePosition :=
  [TitlePosition.lowerThird, .center, .top].find? fun position => position.asStr = value

/-- `CaptionPreset::as_str`. -/
def CaptionPreset.asStr : CaptionPreset → String
  | .clean => "clean"
  | .social => "social"
  | .minimal => "minimal"

/-- `CaptionPreset::from_str`. -/
def CaptionPreset.ofStr (value : String) : Option CaptionPreset :=
  [clean, .social, .minimal].find? fun preset => preset.asStr = value

/-- `CaptionPreset::title`. -/
def CaptionPreset.title (preset : CaptionPreset) (text : String) : Title where
  text := text
  fontSizeToken := if preset = .social then 2 else 0
  colorToken := 0
  position := .lowerThird
  backgroundScrim := preset = .clean
  fadeInFrames := 0
  fadeOutFrames := 0
  captionPreset := some preset

inductive TitleParameterKind
  | text (maximumCharacters : ℕ)
  | integer (min max : Int64)
  | boolean
  | position
  | captionPreset
deriving DecidableEq

/-- `TITLE_PARAMETER_DESCRIPTORS`. -/
def titleParameterDescriptors : List (String × TitleParameterKind) :=
  [("text", .text 512), ("font_size_token", .integer 0 2), ("color_token", .integer 0 2),
    ("position", .position), ("caption_preset", .captionPreset), ("background_scrim", .boolean),
    ("fade_in_frames", .integer 0 Int64.maxValue), ("fade_out_frames", .integer 0 Int64.maxValue)]

/-- `title_parameter_value`, of a name in the descriptors. -/
def titleParameterValue (title : Title) (name : String) : ParamValue :=
  if name = "text" then .text title.text
  else if name = "font_size_token" then .integer (Int64.ofNat title.fontSizeToken.toNat)
  else if name = "color_token" then .integer (Int64.ofNat title.colorToken.toNat)
  else if name = "position" then .text title.position.asStr
  else if name = "caption_preset" then
    .text ((title.captionPreset.map asStr).getD "none")
  else if name = "background_scrim" then .boolean title.backgroundScrim
  else if name = "fade_in_frames" then .integer title.fadeInFrames
  else .integer title.fadeOutFrames

/-- `validate_title_parameter`. -/
def validateTitleParameter (name : String) (value : ParamValue) : Except OpError Unit := do
  let descriptor ← okOr (.unknownTitleParam name)
    (titleParameterDescriptors.find? fun descriptor => descriptor.1 = name)
  match descriptor.2, value with
  | .text maximum, .text text => refuse (maximum < text.length) (.titleTextTooLong maximum)
  | .integer min max, .integer actual =>
    refuse (actual < min ∨ max < actual) (.titleParamOutOfRange name min max actual)
  | .boolean, .boolean _ => .ok ()
  | .position, .text position =>
    refuse ((TitlePosition.ofStr position).isNone) (.invalidTitleParamType name)
  | .captionPreset, .text preset =>
    refuse (preset ≠ "none" ∧ (ofStr preset).isNone) (.invalidTitleParamType name)
  | _, _ => .error (.invalidTitleParamType name)

/-- The fields of a title with a preset are those of the preset. -/
def Title.matchesPreset (title : Title) (preset : CaptionPreset) : Bool :=
  let resolved := preset.title ""
  title.fontSizeToken = resolved.fontSizeToken && title.colorToken = resolved.colorToken &&
    title.position = resolved.position && title.backgroundScrim = resolved.backgroundScrim

/-- `validate_title`. -/
def validateTitle (clip : ClipId) (title : Title) (duration : TimeCode) : Except OpError Unit := do
  all (fun descriptor : String × TitleParameterKind =>
      validateTitleParameter descriptor.1 (titleParameterValue title descriptor.1))
    titleParameterDescriptors
  all (fun preset => refuse (title.matchesPreset preset = false) (.captionPresetMismatch clip preset))
    title.captionPreset.toList
  all (fun fade : String × TimeCode =>
      refuse (duration < fade.2) (.titleFadeTooLong clip fade.1 fade.2 duration))
    [("fade_in_frames", title.fadeInFrames), ("fade_out_frames", title.fadeOutFrames)]

/-! ## Clips -/

/-- `TRANSITION_DESCRIPTORS`, by name, and whether one is a fade from a colour. -/
def transitionDescriptors : List (String × Bool) :=
  [("crossfade", false), ("fade_from_black", true), ("fade_from_white", true), ("push_left", false),
    ("push_right", false), ("push_up", false), ("push_down", false), ("slide_left", false),
    ("slide_right", false), ("slide_up", false), ("slide_down", false), ("wipe_left", false),
    ("wipe_right", false), ("wipe_up", false), ("wipe_down", false)]

/-- `validate_transition`. -/
def validateTransition (doc : Document) (clip : Clip) (transition : Transition) : Except OpError Unit := do
  let descriptor ← okOr (.unknownTransition transition.name)
    (transitionDescriptors.find? fun descriptor => descriptor.1 = transition.name)
  refuse (clip.content = .adjustment ∧ descriptor.2 = true) (.transitionUnsupportedOnAdjustment clip.id transition.name)
  refuse (transition.duration ≤ 0) (.invalidTransitionDuration clip.id transition.duration)
  let clipDuration ← doc.clipDuration clip
  refuse (clipDuration < transition.duration) (.transitionTooLong clip.id transition.duration clipDuration)

/-- `validate_clip_gain_curve`. -/
def validateClipGainCurve (clip : ClipId) (curve : AutomationCurve) (clipDuration : TimeCode) :
    Except OpError Unit := do
  curve.validate.mapError (.invalidClipGainEnvelope clip)
  all (fun key : Keyframe => do
      refuse (key.value < -600 ∨ 120 < key.value) (.clipGainEnvelopeOutOfRange clip key.value)
      refuse (clipDuration ≤ key.at_) (.clipGainEnvelopeKeyframeOutsideClip clip key.at_ clipDuration))
    curve.keyframes

/-- `validate_clip_audio_values`. -/
def validateClipAudioValues (clip : ClipId) (gainTenthDb : Int32) (fadeIn fadeOut clipDuration : TimeCode) :
    Except OpError Unit := do
  refuse (gainTenthDb < -600 ∨ 120 < gainTenthDb) (.audioGainOutOfRange clip gainTenthDb)
  refuse (fadeIn < 0) (.negativeAudioFade clip "fade-in" fadeIn)
  refuse (fadeOut < 0) (.negativeAudioFade clip "fade-out" fadeOut)
  let fadeTotal ← okOr .timeOverflow (checkedAdd fadeIn fadeOut)
  refuse (clipDuration < fadeTotal) (.audioFadesTooLong clip fadeIn fadeOut fadeTotal clipDuration)

/-- The clip has a gain, a fade or an envelope of its own. -/
def Clip.hasAudio (clip : Clip) : Bool :=
  clip.audioGainTenthDb ≠ 0 || clip.audioFadeInFrames ≠ 0 || clip.audioFadeOutFrames ≠ 0 || clip.audioGainCurve.isSome

/-- `validate_clip_audio`. -/
def validateClipAudio (doc : Document) (clip : Clip) : Except OpError Unit := do
  refuse (clip.content.isMedia = false ∧ clip.hasAudio = true) (.clipHasNoAudio clip.content clip.id)
  let clipDuration ← doc.clipDuration clip
  all (validateClipGainCurve clip.id · clipDuration) clip.audioGainCurve.toList
  validateClipAudioValues clip.id clip.audioGainTenthDb clip.audioFadeInFrames clip.audioFadeOutFrames clipDuration

/-- The check of an effect of a clip after the effects before it. -/
def validateClipEffect (doc : Document) (clip : Clip) (clipDuration : TimeCode) (before : List Effect)
    (effect : Effect) : Except OpError Unit := do
  refuse (effect.id ∈ before.map Effect.id) (.duplicateEffect clip.id effect.id)
  refuse (isAudioEffect effect.name = true) (.audioEffectOnClip clip.id effect.name)
  refuse (clip.content = .adjustment ∧ effect.name = "chroma_key") (.effectUnsupportedOnAdjustment clip.id effect.name)
  validateEffect effect
  validateLutNodeReferences doc clip.id effect
  validateColorCurvePoints effect
  validateEffectAutomation clip.id clipDuration effect

/-- What `validate_document` checks of a clip beside its place. -/
def validateClipData (doc : Document) (clip : Clip) (clipDuration : TimeCode) : Except OpError Unit := do
  allAfter (validateClipEffect doc clip clipDuration) [] clip.effects
  refuse (16 < managedColorNodeCount clip.effects) (.tooManyColorNodes clip.id (managedColorNodeCount clip.effects))
  refuse (4 < lutNodeCount clip.effects) (.tooManyLutNodes clip.id (lutNodeCount clip.effects))
  checkStageOrder clip.id (colorNodes clip.effects)
  all (validateTransition doc clip) clip.transitionIn.toList
  validateClipAudio doc clip

/-! ## Markers -/

/-- `validate_marker`. -/
def validateMarker (marker : Marker) : Except OpError Unit := do
  refuse (marker.position < 0) (.negativeMarkerPosition marker.position)
  refuse (4 ≤ marker.colorToken) (.invalidMarkerColor marker.colorToken)

/-- The check of a marker after the markers before it. -/
def validateMarkerAfter (before : List Marker) (marker : Marker) : Except OpError Unit := do
  refuse (marker.id ∈ before.map Marker.id) (.duplicateMarker marker.id)
  validateMarker marker
  all (fun previous : Marker =>
      refuse (marker.position < previous.position) (.markersUnsorted previous.id marker.id))
    before.getLast?.toList

/-! ## The mix -/

/-- `project_frame_in_range`. -/
def projectFrameInRange (at_ duration : TimeCode) : Bool :=
  decide (at_ < duration) || (decide (duration ≤ 0) && decide (at_ = 0))

/-- `TRACK_AUTOMATION_PARAMETERS`. -/
def trackAutomationParameters : List String := ["gain_tenth_db", "pan_percent"]

/-- The check of one of the curves of `validate_track_mix_automation`. -/
def validateTrackCurve (track : TrackId) (parameter : String) (min max : Int64) (duration : TimeCode)
    (curve : AutomationCurve) : Except OpError Unit := do
  curve.validate.mapError (.invalidTrackAutomation track parameter)
  all (fun key : Keyframe => do
      refuse (key.value < min ∨ max < key.value) (.trackAutomationOutOfRange track parameter key.value)
      refuse (projectFrameInRange key.at_ duration = false)
        (.trackAutomationKeyframeOutsideProject track parameter key.at_ duration))
    curve.keyframes

/-- `validate_track_mix_automation`. -/
def validateTrackMixAutomation (entry : TrackMix) (duration : TimeCode) : Except OpError Unit := do
  all (validateTrackCurve entry.track "gain_tenth_db" (-600) 120 duration) entry.gainCurve.toList
  all (validateTrackCurve entry.track "pan_percent" (-100) 100 duration) entry.panCurve.toList

/-- `validate_track_mix_values`. -/
def validateTrackMixValues (entry : TrackMix) : Except OpError Unit := do
  refuse (entry.gainTenthDb < -600 ∨ 120 < entry.gainTenthDb) (.trackMixGainOutOfRange entry.track entry.gainTenthDb)
  refuse (entry.panPercent < -100 ∨ 100 < entry.panPercent) (.trackMixPanOutOfRange entry.track entry.panPercent)

/-- The check of an entry of the mix after the entries before it. -/
def validateTrackMixAfter (doc : Document) (before : List TrackMix) (entry : TrackMix) : Except OpError Unit := do
  all (fun previous : TrackMix => do
      refuse (entry.track = previous.track) (.duplicateTrackMix entry.track)
      refuse (entry.track < previous.track) .trackMixUnsorted)
    before.getLast?.toList
  refuse (entry.track ∉ doc.tracks.map Track.id) (.missingTrack entry.track)
  validateTrackMixValues entry
  validateTrackMixAutomation entry doc.duration

/-- `i32::try_from(value).unwrap_or(i32::MAX)`. -/
def toInt32OrMax (value : Int64) : Int32 :=
  if -2 ^ 31 ≤ value.toInt ∧ value.toInt < 2 ^ 31 then Int32.ofInt value.toInt else Int32.maxValue

/-- `validate_audio_fader_curve`, of a fader, whose gains are those of tracks. -/
def validateAudioFaderCurve (duration : TimeCode) (invalid : AutomationCurve.Error → OpError)
    (outOfRange : Int32 → OpError) (outside : TimeCode → OpError) (curve : AutomationCurve) :
    Except OpError Unit := do
  curve.validate.mapError invalid
  all (fun key : Keyframe => do
      refuse (key.value < -600 ∨ 120 < key.value) (outOfRange (toInt32OrMax key.value))
      refuse (projectFrameInRange key.at_ duration = false) (outside key.at_))
    curve.keyframes

/-- The error of `validate_audio_chain_automation` for a key outside the project. The chain is a bus's, or
the master's. -/
def chainKeyframeOutside (chain : Option AudioBusId) (effect : EffectId) (name : String)
    (at_ duration : TimeCode) : OpError :=
  match chain with
  | some bus => .audioBusKeyframeOutsideProject bus effect name at_ duration
  | none => .audioMasterKeyframeOutsideProject effect name at_ duration

/-- The check of a curve in `validate_audio_chain_automation`. -/
def validateChainCurve (duration : TimeCode) (chain : Option AudioBusId) (effect : Effect)
    (descriptor : EffectDescriptor) (name : String) (curve : AutomationCurve) : Except OpError Unit := do
  refuse (isStaticAudioParameter effect.name name = true) (.staticEffectAutomation effect.name name
      (if name = audioLookaheadParameter then "sets processing latency and cannot be keyframed"
        else "is read when the chain is built or retuned and cannot be keyframed"))
  curve.validate.mapError (.invalidEffectAutomation effect.name name)
  refuse (isHoldOnlyParameter effect.name name = true ∧ ∃ key ∈ curve.keyframes, key.interpolation ≠ .hold)
    (.nonHoldKeyframeParameter effect.name name)
  all (fun key : Keyframe => do
      refuse (projectFrameInRange key.at_ duration = false) (chainKeyframeOutside chain effect.id name key.at_ duration)
      validateDescribedEffectParameter descriptor name (.integer key.value))
    curve.keyframes

/-- `validate_audio_chain_automation`. -/
def validateAudioChainAutomation (duration : TimeCode) (chain : Option AudioBusId) (effect : Effect) :
    Except OpError Unit := do
  let descriptor ← okOr (.unknownEffect effect.name) (effectDescriptor effect.name)
  all (fun entry : String × AutomationCurve =>
      validateChainCurve duration chain effect descriptor entry.1 entry.2)
    effect.keyframes.entries

/-- The errors that tell the check of a chain on a bus from that on the master. -/
structure ChainErrors where
  chain : Option AudioBusId
  duplicateEffect : EffectId → OpError
  visualEffect : String → OpError
  ducking : Except OpError Unit

/-- The check of an effect that ducks the chain. -/
def ChainErrors.checkDucking (errors : ChainErrors) (effect : Effect) : Except OpError Unit :=
  if effect.name = "audio_ducking" then errors.ducking else .ok ()

/-- The check of an effect of a chain after the effects before it. -/
def validateChainEffect (duration : TimeCode) (errors : ChainErrors) (before : List Effect)
    (effect : Effect) : Except OpError Unit := do
  refuse (effect.id ∈ before.map Effect.id) (errors.duplicateEffect effect.id)
  refuse (isAudioEffect effect.name = false) (errors.visualEffect effect.name)
  refuse (effect.enabled = false ∨ effect.enabledCurve.isSome) (.disabledEffectOnAudioChain errors.chain effect.id)
  validateEffect effect
  errors.checkDucking effect
  validateAudioChainAutomation duration errors.chain effect

/-- The check of a track of a bus after the tracks before it. -/
def validateBusTrack (doc : Document) (bus : AudioBusId) (before : List TrackId) (track : TrackId) :
    Except OpError Unit := do
  refuse (track ∈ before) (.trackInMultipleAudioBuses track bus bus)
  refuse (track ∉ doc.tracks.map Track.id) (.audioBusMissingTrack bus track)

/-- `validate_audio_bus`. -/
def validateAudioBus (doc : Document) (bus : AudioBus) : Except OpError Unit := do
  refuse (Text.isBlank bus.name = true ∨ bus.tracks = []) (.invalidAudioBus bus.id)
  refuse (bus.gainTenthDb < -600 ∨ 120 < bus.gainTenthDb) (.audioBusGainOutOfRange bus.id bus.gainTenthDb)
  all (validateAudioFaderCurve doc.duration (.invalidEffectAutomation "audio_bus" "gain_tenth_db")
      (.audioBusGainOutOfRange bus.id) (.audioBusGainKeyframeOutsideProject bus.id · doc.duration))
    bus.gainCurve.toList
  allAfter (validateBusTrack doc bus.id) [] bus.tracks
  allAfter (fun before track => refuse (track ∈ before ∨ track ∉ doc.tracks.map Track.id)
      (.audioBusMissingTrack bus.id track))
    [] bus.duckingSidechainTracks
  allAfter (validateChainEffect doc.duration
      { chain := some bus.id
        duplicateEffect := .duplicateAudioBusEffect bus.id
        visualEffect := .visualEffectOnAudioBus bus.id
        ducking := refuse (bus.duckingSidechainTracks = []) (.audioBusDuckingWithoutSidechain bus.id) })
    [] bus.effects
  refuse (20 < chainLookaheadMilliseconds bus.effects)
    (.audioBusLookaheadExceeded bus.id (chainLookaheadMilliseconds bus.effects))

/-- `validate_audio_master`. -/
def validateAudioMaster (doc : Document) (master : AudioMaster) : Except OpError Unit := do
  refuse (master.gainTenthDb < -600 ∨ 120 < master.gainTenthDb) (.audioMasterGainOutOfRange master.gainTenthDb)
  all (validateAudioFaderCurve doc.duration (.invalidEffectAutomation "audio_master" "gain_tenth_db")
      .audioMasterGainOutOfRange (.audioMasterGainKeyframeOutsideProject · doc.duration))
    master.gainCurve.toList
  allAfter (validateChainEffect doc.duration
      { chain := none
        duplicateEffect := .duplicateAudioMasterEffect
        visualEffect := .visualEffectOnAudioMaster
        ducking := .error .audioMasterDuckingUnsupported })
    [] master.effects
  refuse (20 < chainLookaheadMilliseconds master.effects)
    (.audioMasterLookaheadExceeded (chainLookaheadMilliseconds master.effects))

/-- The check of a bus after the buses before it. -/
def validateBusAfter (doc : Document) (before : List AudioBus) (bus : AudioBus) : Except OpError Unit := do
  refuse (bus.id ∈ before.map AudioBus.id) (.duplicateAudioBus bus.id)
  validateAudioBus doc bus
  all (fun track => match before.find? fun other => track ∈ other.tracks with
      | some first => .error (.trackInMultipleAudioBuses track first.id bus.id)
      | none => .ok ())
    bus.tracks

/-- `validate_track_mix` and `validate_audio_mix`. -/
def validateMix (doc : Document) : Except OpError Unit := do
  allAfter (validateTrackMixAfter doc) [] doc.audioMix.tracks
  allAfter (validateBusAfter doc) [] doc.audioMix.buses
  validateAudioMaster doc doc.audioMix.master

/-! ## All checks -/

/-- The checks that `validate_document` makes. -/
def coreChecks : Checks where
  project doc := do
    refuse (doc.resolution.1 = 0 ∨ doc.resolution.2 = 0) .invalidResolution
    all validateColorDescription
      [doc.colorContext.working, doc.colorContext.monitoring, doc.colorContext.delivery]
  asset := validateAssetData
  pool doc := do
    allAfter (fun before (asset : LutAsset) => do
        refuse (asset.id ∈ before.map LutAsset.id) (.duplicateLutAsset asset.id)
        validateLutAsset asset)
      [] doc.lutAssets
    validateCatalog doc
  title := validateTitle
  clip := validateClipData
  markers doc := allAfter validateMarkerAfter [] doc.markers
  mix := validateMix

/-- `validate_document`, with all its checks. -/
def Document.validate (doc : Document) : Except OpError Unit := validateDocument coreChecks doc

end Kinewright.Model
