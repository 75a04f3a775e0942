import Kinewright.Lib.KeyedMap
import Kinewright.Model.Automation
import Kinewright.Model.Color

/-!
# The project document

`model.rs`: tracks of clips over a pool of media assets, the catalogue, the audio mix and the colour
context of a project.
-/

namespace Kinewright.Model

open Fallible AutomationCurve

abbrev AssetId := ℕ
abbrev TrackId := ℕ
abbrev ClipId := ℕ
abbrev EffectId := ℕ
abbrev LinkId := ℕ
abbrev MarkerId := ℕ
abbrev BinId := ℕ
abbrev StringOutId := ℕ
abbrev SyncGroupId := ℕ
abbrev AudioBusId := ℕ
abbrev LutAssetId := ℕ

inductive TrackKind
  | video
  | audio
deriving DecidableEq

inductive MediaKind
  | video
  | audio
  | audioVideo
  | image
deriving DecidableEq

/-- `MediaKind::supports`. -/
def MediaKind.supports : MediaKind → TrackKind → Bool
  | .video, .video | .audioVideo, .video | .image, .video => true
  | .audio, .audio | .audioVideo, .audio => true
  | _, _ => false

/-- `Range<TimeCode>`, half-open. -/
structure FrameRange where
  start : TimeCode
  stop : TimeCode
deriving DecidableEq

/-! ## Media -/

structure MediaSourceFingerprint where
  contentSha256 : Option String
  byteLen : Option ℕ
deriving DecidableEq

structure MediaAsset where
  id : AssetId
  path : String
  name : String
  duration : TimeCode
  fps : Rational
  kind : MediaKind
  resolution : Option (UInt32 × UInt32)
  sourceFingerprint : MediaSourceFingerprint
  colorDescription : ColorDescription
  assumedFrom : Option ColorDescription
deriving DecidableEq

inductive LutAssetKind
  | cube3d
  | cube1d
deriving DecidableEq

inductive LutAssetSource
  | imported (sourcePath : String)
  | builtin (name : String)
deriving DecidableEq

structure LutAsset where
  id : LutAssetId
  sha256 : String
  title : String
  kind : LutAssetKind
  size : UInt32
  byteLen : ℕ
  domainMinMillionths : Int64 × Int64 × Int64
  domainMaxMillionths : Int64 × Int64 × Int64
  source : LutAssetSource
deriving DecidableEq

/-! ## Clips -/

inductive ParamValue
  | integer (value : Int64)
  | boolean (value : Bool)
  | text (value : String)
deriving DecidableEq

structure Effect where
  id : EffectId
  name : String
  parameters : KeyedMap String ParamValue
  keyframes : KeyedMap String AutomationCurve
  enabled : Bool
  enabledCurve : Option AutomationCurve
deriving DecidableEq

structure Transition where
  name : String
  duration : TimeCode
deriving DecidableEq

inductive TitlePosition
  | lowerThird
  | center
  | top
deriving DecidableEq

inductive CaptionPreset
  | clean
  | social
  | minimal
deriving DecidableEq

structure Title where
  text : String
  fontSizeToken : UInt8
  colorToken : UInt8
  position : TitlePosition
  backgroundScrim : Bool
  fadeInFrames : TimeCode
  fadeOutFrames : TimeCode
  captionPreset : Option CaptionPreset
deriving DecidableEq

structure SolidColor where
  r : UInt8
  g : UInt8
  b : UInt8
deriving DecidableEq

inductive ClipContent
  | media
  | title (title : Title)
  | freeze (sourceFrame : TimeCode)
  | adjustment
  | solid (color : SolidColor)
deriving DecidableEq

namespace ClipContent

/-- `ClipContent::is_media`. -/
def isMedia (content : ClipContent) : Bool := content = .media

/-- `ClipContent::is_span`. -/
def isSpan (content : ClipContent) : Bool := !content.isMedia

/-- `ClipContent::references_asset`. -/
def referencesAsset : ClipContent → Bool
  | .media | .freeze _ => true
  | _ => false

end ClipContent

inductive BlendMode
  | normal
  | multiply
  | screen
  | overlay
  | darken
  | lighten
  | add
deriving DecidableEq

structure Clip where
  id : ClipId
  asset : AssetId
  sourceRange : FrameRange
  content : ClipContent
  timelineStart : TimeCode
  effects : List Effect
  transitionIn : Option Transition
  link : Option LinkId
  audioGainTenthDb : Int32
  audioFadeInFrames : TimeCode
  audioFadeOutFrames : TimeCode
  audioGainCurve : Option AutomationCurve
  speedPercent : UInt32
  enabled : Bool
  enabledCurve : Option AutomationCurve
  blendMode : BlendMode
deriving DecidableEq

/-- `Effect::is_enabled_at`. -/
def Effect.isEnabledAt (effect : Effect) (at_ : TimeCode) : Bool :=
  match effect.enabledCurve with
  | some curve => curve.enables at_
  | none => effect.enabled

/-- `Effect::evaluated_at`: a static effect for one frame. -/
def Effect.evaluatedAt (effect : Effect) (at_ : TimeCode) : Effect :=
  { effect with
    parameters := effect.parameters.extend (effect.keyframes.filter fun _ curve => (curve.valueAt at_).isSome).keys
      fun name => .integer (((effect.keyframes.get? name).bind (·.valueAt at_)).getD 0)
    keyframes := .empty
    enabled := effect.isEnabledAt at_
    enabledCurve := none }

/-- `Clip::is_enabled_at`, on a clip-local frame. -/
def Clip.isEnabledAt (clip : Clip) (localAt : TimeCode) : Bool :=
  match clip.enabledCurve with
  | some curve => curve.enables localAt
  | none => clip.enabled

/-- `clip_effective_fps`. -/
def clipEffectiveFps (assetFps : Rational) (clip : Clip) : Except TimeMappingError Rational :=
  speedScaledFps assetFps clip.speedPercent

structure Track where
  id : TrackId
  kind : TrackKind
  syncLock : Bool
  clips : List Clip
deriving DecidableEq

/-! ## The mix -/

structure AudioBus where
  id : AudioBusId
  name : String
  tracks : List TrackId
  gainTenthDb : Int32
  gainCurve : Option AutomationCurve
  effects : List Effect
  duckingSidechainTracks : List TrackId
deriving DecidableEq

structure TrackMix where
  track : TrackId
  gainTenthDb : Int32
  panPercent : Int32
  gainCurve : Option AutomationCurve
  panCurve : Option AutomationCurve
  mute : Bool
  solo : Bool
deriving DecidableEq

/-- `TrackMix::neutral`. -/
def TrackMix.neutral (track : TrackId) : TrackMix where
  track := track
  gainTenthDb := 0
  panPercent := 0
  gainCurve := none
  panCurve := none
  mute := false
  solo := false

structure AudioMaster where
  gainTenthDb : Int32
  gainCurve : Option AutomationCurve
  effects : List Effect
deriving DecidableEq

inductive PanLaw
  | balance
  | constantPower
deriving DecidableEq

structure AudioMix where
  buses : List AudioBus
  tracks : List TrackMix
  master : AudioMaster
  panLaw : PanLaw
deriving DecidableEq

namespace AudioMix

/-- `AudioMix::track`. -/
def track (mix : AudioMix) (id : TrackId) : TrackMix :=
  (mix.tracks.find? fun entry => entry.track = id).getD (.neutral id)

/-- `AudioMix::any_solo`. -/
def anySolo (mix : AudioMix) : Bool := mix.tracks.any TrackMix.solo

end AudioMix

/-! ## The catalogue -/

structure Marker where
  id : MarkerId
  position : TimeCode
  label : String
  colorToken : UInt8
deriving DecidableEq

structure MediaBin where
  id : BinId
  name : String
  parent : Option BinId
  assets : List AssetId
deriving DecidableEq

structure SourceSelect where
  asset : AssetId
  source : FrameRange
  label : String
deriving DecidableEq

structure StringOut where
  id : StringOutId
  name : String
  selects : List SourceSelect
deriving DecidableEq

structure SyncGroupMember where
  asset : AssetId
  offset : TimeCode
  angleName : String
deriving DecidableEq

structure SyncGroup where
  id : SyncGroupId
  name : String
  members : List SyncGroupMember
deriving DecidableEq

structure MediaCatalog where
  bins : List MediaBin
  stringOuts : List StringOut
  syncGroups : List SyncGroup
deriving DecidableEq

/-! ## The document -/

structure InvestigatorPreferences where
  mutedCodes : List String
deriving DecidableEq

structure Document where
  tracks : List Track
  mediaPool : List MediaAsset
  markers : List Marker
  catalog : MediaCatalog
  audioMix : AudioMix
  colorContext : ColorContext
  lutAssets : List LutAsset
  investigator : Option InvestigatorPreferences
  fps : Rational
  resolution : UInt32 × UInt32
  duration : TimeCode
deriving DecidableEq

/-- `OpError`. The errors of the four kinds of clips that only cover a span are one, with the content. -/
inductive OpError
  | invalidProjectRate
  | duplicateAsset (asset : AssetId)
  | invalidAssetRate (asset : AssetId)
  | invalidAssetDuration (asset : AssetId)
  | missingAsset (asset : AssetId)
  | duplicateTrack (track : TrackId)
  | duplicateClip (clip : ClipId)
  | missingClip (clip : ClipId)
  | incompatibleTrack (asset : AssetId) (kind : TrackKind) (track : TrackId)
  | spanOnAudioTrack (content : ClipContent) (track : TrackId)
  | negativeTimelinePosition (at_ : TimeCode)
  | invalidSourceRange (start stop : TimeCode)
  | sourceOutOfBounds (asset : AssetId) (stop duration : TimeCode)
  | clipSpeedOutOfRange (speedPercent : UInt32)
  | speedOnNonMediaClip (clip : ClipId)
  | freezeSourceFrameOutOfRange (asset : AssetId) (sourceFrame duration : TimeCode)
  | zeroProjectDuration (clip : ClipId)
  | invalidEnabledCurve (clip : ClipId) (error : Error)
  | enabledCurveOutOfRange (clip : ClipId) (actual : Int64)
  | clipsUnsorted (track : TrackId) (previous next : ClipId)
  | clipOverlap (track : TrackId) (clip other : ClipId)
  | incorrectDocumentDuration (expected actual : TimeCode)
  | splitOutsideClip (clip : ClipId) (at_ : TimeCode)
  | unrepresentableSplit (clip : ClipId) (at_ : TimeCode)
  | clipIdExhausted
  | timeOverflow
  | timeMapping (error : TimeMappingError)
  | invalidResolution
  | sourceFingerprintIncomplete (asset : AssetId)
  | invalidSourceFingerprintHash (asset : AssetId)
  | invalidSourceFingerprintByteLength (asset : AssetId)
  | emptyRelinkCandidatePath (asset : AssetId)
  | unverifiedRelinkCandidate (asset : AssetId)
  | relinkMetadataMismatch (asset : AssetId) (field expected actual : String)
  | relinkFingerprintMismatch (asset : AssetId)
  | relinkRequiresExplicitUnverifiedSource (asset : AssetId)
  | colorConfidenceOutOfRange (actual : UInt16)
  | zeroConfidenceColorOverride (asset : AssetId)
  | invalidColorOverrideProvenance (asset : AssetId) (actual : ColorTag ProvenanceName)
  | assumedFromNotSuppliable (asset : AssetId)
  | duplicateBin (bin : BinId)
  | missingBin (bin : BinId)
  | emptyBinName (bin : BinId)
  | binSelfParent (bin : BinId)
  | binCycle (bin : BinId)
  | binHasChildren (bin : BinId)
  | duplicateBinAsset (bin : BinId) (asset : AssetId)
  | assetInMultipleBins (asset : AssetId) (first second : BinId)
  | duplicateStringOut (stringOut : StringOutId)
  | missingStringOut (stringOut : StringOutId)
  | invalidStringOut (stringOut : StringOutId)
  | duplicateSyncGroup (group : SyncGroupId)
  | missingSyncGroup (group : SyncGroupId)
  | invalidSyncGroup (group : SyncGroupId)
  | duplicateSyncGroupAsset (group : SyncGroupId) (asset : AssetId)
  | emptySyncAngle (group : SyncGroupId) (asset : AssetId)
  | duplicateAudioBus (bus : AudioBusId)
  | missingAudioBus (bus : AudioBusId)
  | invalidAudioBus (bus : AudioBusId)
  | trackInMultipleAudioBuses (track : TrackId) (first second : AudioBusId)
  | audioBusMissingTrack (bus : AudioBusId) (track : TrackId)
  | visualEffectOnAudioBus (bus : AudioBusId) (effect : String)
  | audioEffectOnClip (clip : ClipId) (effect : String)
  | duplicateAudioBusEffect (bus : AudioBusId) (effect : EffectId)
  | audioBusDuckingWithoutSidechain (bus : AudioBusId)
  | audioBusLookaheadExceeded (bus : AudioBusId) (milliseconds : ℤ)
  | audioBusKeyframeOutsideProject (bus : AudioBusId) (effect : EffectId) (name : String) (at_ duration : TimeCode)
  | audioBusGainOutOfRange (bus : AudioBusId) (gainTenthDb : Int32)
  | audioBusGainKeyframeOutsideProject (bus : AudioBusId) (at_ duration : TimeCode)
  | audioMasterGainOutOfRange (gainTenthDb : Int32)
  | duplicateAudioMasterEffect (effect : EffectId)
  | visualEffectOnAudioMaster (effect : String)
  | disabledEffectOnAudioChain (bus : Option AudioBusId) (effect : EffectId)
  | audioMasterDuckingUnsupported
  | audioMasterKeyframeOutsideProject (effect : EffectId) (name : String) (at_ duration : TimeCode)
  | audioMasterGainKeyframeOutsideProject (at_ duration : TimeCode)
  | audioMasterLookaheadExceeded (milliseconds : ℤ)
  | newTrackNotEmpty (track : TrackId)
  | missingTrack (track : TrackId)
  | editorialRequiresMedia (clip : ClipId)
  | clipsNotAdjacent (left right : ClipId)
  | slideRequiresNeighbors (clip : ClipId)
  | unrepresentableEditBoundary (clip : ClipId) (at_ : TimeCode)
  | invalidThreePointSelection
  | emptySourcePatch
  | duplicateSourcePatchTrack (track : TrackId)
  | invalidSourcePatchRouteKind (component : String) (expected actual : TrackKind) (track : TrackId)
  | invalidThreePointSource (start stop : TimeCode)
  | invalidThreePointTimeline (start stop : TimeCode)
  | replacementDurationMismatch (clip : ClipId) (required actual : TimeCode)
  | fitToFillUnrepresentable (clip : ClipId)
  | linkIdExhausted
  | tooFewLinkedClips (minimum : ℕ)
  | duplicateClipSelection (clip : ClipId)
  | duplicateMarker (marker : MarkerId)
  | missingMarker (marker : MarkerId)
  | markersUnsorted (previous next : MarkerId)
  | negativeMarkerPosition (at_ : TimeCode)
  | invalidMarkerColor (actual : UInt8)
  | unknownMarkerParam (marker : MarkerId) (name : String)
  | invalidMarkerParamType (marker : MarkerId) (name : String)
  | invalidRippleDuration (duration : TimeCode)
  | invalidTitleDuration (duration : TimeCode)
  | invalidFreezeDuration (duration : TimeCode)
  | notTitleClip (clip : ClipId)
  | unknownTitleParam (name : String)
  | invalidTitleParamType (name : String)
  | titleParamOutOfRange (name : String) (min max actual : Int64)
  | titleTextTooLong (maximum : ℕ)
  | captionPresetMismatch (clip : ClipId) (preset : CaptionPreset)
  | titleFadeTooLong (clip : ClipId) (name : String) (frames duration : TimeCode)
  | duplicateEffect (clip : ClipId) (effect : EffectId)
  | missingEffect (clip : ClipId) (effect : EffectId)
  | unknownEffect (name : String)
  | unknownEffectParam (effect name : String)
  | invalidEffectParamType (effect name : String)
  | missingCubeLutPath
  | effectParamOutOfRange (effect name : String) (min max actual : Int64)
  | invalidCurvePoints (effect curve : String) (index : ℕ) (previousX x : Int64)
  | nonHoldKeyframeParameter (effect name : String)
  | curvePointCountAnimatedWithPoints (effect curve : String)
  | tooManyColorNodes (clip : ClipId) (actual : ℕ)
  | tooManyLutNodes (clip : ClipId) (actual : ℕ)
  | duplicateLutAsset (lutAsset : LutAssetId)
  | invalidLutAssetHash (lutAsset : LutAssetId) (observed : String)
  | invalidLutAssetMetadata (field observed allowed : String)
  | lutAssetInUse (lutAsset : LutAssetId) (clip : ClipId) (effect : EffectId)
  | missingLutAsset (clip : ClipId) (effect : EffectId) (lutAsset : LutAssetId)
  | unknownLutAsset (lutAsset : LutAssetId)
  | effectIndexOutOfRange (clip : ClipId) (index len : ℕ)
  | notALegacyLook (clip : ClipId) (effect : EffectId) (name : String)
  | colorStageOrderViolation (clip : ClipId) (effect previousEffect : EffectId) (kind previousKind : String)
      (colorStageRank previousColorStageRank : ℕ)
  | invalidEffectAutomation (effect name : String) (reason : Error)
  | staticEffectAutomation (effect name reason : String)
  | effectKeyframeOutsideClip (clip : ClipId) (effect : EffectId) (name : String) (at_ duration : TimeCode)
  | duplicateTransition (clip : ClipId)
  | missingTransition (clip : ClipId)
  | unknownTransition (name : String)
  | invalidTransitionDuration (clip : ClipId) (duration : TimeCode)
  | transitionTooLong (clip : ClipId) (duration clipDuration : TimeCode)
  | transitionUnsupportedOnAdjustment (clip : ClipId) (transition : String)
  | effectUnsupportedOnAdjustment (clip : ClipId) (effect : String)
  | audioGainOutOfRange (clip : ClipId) (gainTenthDb : Int32)
  | negativeAudioFade (clip : ClipId) (name : String) (frames : TimeCode)
  | audioFadesTooLong (clip : ClipId) (fadeIn fadeOut fadeTotal clipDuration : TimeCode)
  | clipHasNoAudio (content : ClipContent) (clip : ClipId)
  | solidColorOnNonSolidClip (clip : ClipId)
  | invalidClipGainEnvelope (clip : ClipId) (reason : Error)
  | clipGainEnvelopeOutOfRange (clip : ClipId) (value : Int64)
  | clipGainEnvelopeKeyframeOutsideClip (clip : ClipId) (at_ duration : TimeCode)
  | invalidTrackAutomation (track : TrackId) (parameter : String) (reason : Error)
  | trackAutomationOutOfRange (track : TrackId) (parameter : String) (value : Int64)
  | trackAutomationKeyframeOutsideProject (track : TrackId) (parameter : String) (at_ duration : TimeCode)
  | unknownTrackAutomationParameter (parameter : String)
  | trackMixGainOutOfRange (track : TrackId) (gainTenthDb : Int32)
  | trackMixPanOutOfRange (track : TrackId) (panPercent : Int32)
  | duplicateTrackMix (track : TrackId)
  | trackMixUnsorted
  | other (text : String)
deriving DecidableEq

namespace Document

variable (doc : Document)

/-- Every clip, in track order. -/
def clips : List Clip := doc.tracks.flatMap Track.clips

/-- `Document::asset`. -/
def asset (id : AssetId) : Option MediaAsset := doc.mediaPool.find? fun asset => asset.id = id

/-- `Document::clip`. -/
def clip (id : ClipId) : Option Clip := doc.clips.find? fun clip => clip.id = id

/-- `Document::track_mix`. -/
def trackMix (track : TrackId) : TrackMix := doc.audioMix.track track

/-- `Document::track_audible`. -/
def trackAudible (track : TrackId) : Bool :=
  !(doc.trackMix track).mute && (!doc.audioMix.anySolo || (doc.trackMix track).solo)

/-- `Document::clip_duration`. -/
def clipDuration (clip : Clip) : Except OpError TimeCode :=
  if clip.content.isSpan then
    okOr .timeOverflow (checkedSub clip.sourceRange.stop clip.sourceRange.start)
  else do
    let asset ← okOr (.missingAsset clip.asset) (doc.asset clip.asset)
    let effective ← (clipEffectiveFps asset.fps clip).mapError .timeMapping
    (mapSourceRangeToProject clip.sourceRange.start clip.sourceRange.stop effective doc.fps).mapError .timeMapping

/-- `Document::clip_end`. -/
def clipEnd (clip : Clip) : Except OpError TimeCode := do
  let duration ← doc.clipDuration clip
  okOr .timeOverflow (checkedAdd clip.timelineStart duration)

end Document

/-- `clamp_audio_mix_curves`. -/
def clampAudioMixCurves (mix : AudioMix) (duration : TimeCode) : AudioMix :=
  let clamp (curve : Option AutomationCurve) := curve.map (clampProjectCurve · duration)
  let clampEffects (effects : List Effect) := effects.map fun effect =>
    { effect with keyframes := effect.keyframes.map fun _ curve => clampProjectCurve curve duration }
  { mix with
    tracks := mix.tracks.map fun entry =>
      { entry with gainCurve := clamp entry.gainCurve, panCurve := clamp entry.panCurve }
    buses := mix.buses.map fun bus =>
      { bus with gainCurve := clamp bus.gainCurve, effects := clampEffects bus.effects }
    master :=
      { mix.master with
        gainCurve := clamp mix.master.gainCurve
        effects := clampEffects mix.master.effects } }

/-- The last end of the clips, in `recompute_duration`. -/
def Document.lastEnd (doc : Document) : List Clip → TimeCode → Except OpError TimeCode
  | [], duration => .ok duration
  | clip :: clips, duration => do
    let stop ← doc.clipEnd clip
    doc.lastEnd clips (if duration < stop then stop else duration)

/-- `Document::recompute_duration`: the mix is clamped only when the project shortened. -/
def Document.recomputeDuration (doc : Document) : Except OpError Document := do
  let duration ← doc.lastEnd doc.clips 0
  .ok { doc with
    duration := duration
    audioMix :=
      if duration < doc.duration then clampAudioMixCurves doc.audioMix duration
      else doc.audioMix }

end Kinewright.Model
