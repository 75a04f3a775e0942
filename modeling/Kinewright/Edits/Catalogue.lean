import Kinewright.Model.Checks
import Kinewright.Model.Split

/-!
# Edits of the catalogue

`operation.rs`: the edits of the media pool and of what is kept beside the timeline, the bins, string-outs,
sync groups, lookup tables, markers and colours.
-/

namespace Kinewright.Edits

open Fallible Model

/-! ## Lists by id -/

/-- `sort_by_key`. -/
def sortByKey {α β : Type} [LinearOrder β] (key : α → β) (as : List α) : List α :=
  as.insertionSort fun a b => key a ≤ key b

/-- Replace what has the id, or add it, and sort. -/
def upsert {α : Type} (id : α → ℕ) (a : α) (as : List α) : List α :=
  sortByKey id (if as.any fun b => id b = id a then as.modifyFirst (fun b => id b = id a) fun _ => a
    else as ++ [a])

/-- Remove the first of which the predicate holds. -/
def removeFirst {α : Type} (error : OpError) (p : α → Bool) (as : List α) : Except OpError (List α) :=
  if as.any p then .ok (as.eraseP p) else .error error

/-! ## Assets -/

/-- `add_asset`. -/
def addAsset (doc : Document) (asset : MediaAsset) : Except OpError Document := do
  refuse ((doc.asset asset.id).isSome) (.duplicateAsset asset.id)
  refuse (asset.assumedFrom.isSome) (.assumedFromNotSuppliable asset.id)
  refuse (asset.colorDescription.provenance = .named .agentAssumption) (.assumedFromNotSuppliable asset.id)
  validateAsset coreChecks asset
  .ok { doc with mediaPool := doc.mediaPool ++ [asset] }

/-- The description is one that a person or an agent writes. -/
def isActor (description : ColorDescription) : Bool :=
  description.provenance = .named .userOverride || description.provenance = .named .agentAssumption

/-- The asset with another description of its colour. What it was assumed over is kept until it is written
back. -/
def describeColor (asset : MediaAsset) (description : ColorDescription) : MediaAsset :=
  { asset with
    assumedFrom :=
      if asset.assumedFrom = some description then none
      else if description.provenance = .named .agentAssumption ∧ asset.assumedFrom = none then
        some asset.colorDescription
      else asset.assumedFrom
    colorDescription := description }

/-- `set_asset_color_description`. -/
def setAssetColorDescription (doc : Document) (id : AssetId) (description : ColorDescription) :
    Except OpError Document := do
  let current ← okOr (.missingAsset id) (doc.asset id)
  validateColorDescription description
  let isRevert := current.assumedFrom = some description
  refuse (isActor description = false ∧ ¬ isRevert) (.invalidColorOverrideProvenance id description.provenance)
  refuse (isActor description = true ∧ description.confidenceBasisPoints = 0) (.zeroConfidenceColorOverride id)
  .ok { doc with
    mediaPool := doc.mediaPool.modifyFirst (fun asset => asset.id = id) (describeColor · description) }

/-- `set_color_context`. -/
def setColorContext (doc : Document) (context : ColorContext) : Except OpError Document := do
  all validateColorDescription [context.working, context.monitoring, context.delivery]
  .ok { doc with colorContext := context }

/-! ## Relinking -/

structure RelinkCandidate where
  path : String
  fingerprint : MediaSourceFingerprint
  kind : MediaKind
  fps : Rational
  duration : TimeCode
  resolution : Option (UInt32 × UInt32)
deriving DecidableEq

/-- `MediaSourceFingerprint::is_verified`. -/
def isVerified (fingerprint : MediaSourceFingerprint) : Bool :=
  fingerprint.contentSha256.isSome && fingerprint.byteLen.isSome

/-- `Debug` of a media kind. -/
def kindText : MediaKind → String
  | .video => "Video"
  | .audio => "Audio"
  | .audioVideo => "AudioVideo"
  | .image => "Image"

def fpsText (fps : Rational) : String := toString fps.numerator ++ "/" ++ toString fps.denominator

/-- `Debug` of a resolution. -/
def resolutionText : Option (UInt32 × UInt32) → String
  | none => "None"
  | some (width, height) => "Some((" ++ toString width ++ ", " ++ toString height ++ "))"

/-- The checks of `relink_asset`. -/
def checkRelink (current : MediaAsset) (candidate : RelinkCandidate) (allowUnverifiedSource : Bool) :
    Except OpError Unit := do
  refuse (candidate.path = "") (.emptyRelinkCandidatePath current.id)
  validateSourceFingerprint current.id candidate.fingerprint
  refuse (isVerified candidate.fingerprint = false) (.unverifiedRelinkCandidate current.id)
  refuse (current.kind ≠ candidate.kind)
    (.relinkMetadataMismatch current.id "kind" (kindText current.kind) (kindText candidate.kind))
  refuse (current.fps ≠ candidate.fps)
    (.relinkMetadataMismatch current.id "fps" (fpsText current.fps) (fpsText candidate.fps))
  refuse (current.duration ≠ candidate.duration)
    (.relinkMetadataMismatch current.id "duration" (toString current.duration) (toString candidate.duration))
  refuse (current.resolution ≠ candidate.resolution)
    (.relinkMetadataMismatch current.id "resolution" (resolutionText current.resolution)
      (resolutionText candidate.resolution))
  refuse (isVerified current.sourceFingerprint = true ∧ current.sourceFingerprint ≠ candidate.fingerprint)
    (.relinkFingerprintMismatch current.id)
  refuse (isVerified current.sourceFingerprint = false ∧ allowUnverifiedSource = false)
    (.relinkRequiresExplicitUnverifiedSource current.id)

/-- The clip after its asset was relinked: it survives, if its duration in the project is another one. -/
def relinkClip (before after : Document) (asset : AssetId) (clip : Clip) : Except OpError Clip :=
  if clip.asset = asset ∧ clip.content.isMedia then do
    let previous ← before.clipDuration clip
    let duration ← after.clipDuration clip
    if duration = previous then .ok clip else after.surviveClipEdit clip 0
  else .ok clip

/-- The clips that an edit makes of each. -/
def editEach (edit : Clip → Except OpError Clip) : List Clip → Except OpError (List Clip)
  | [] => .ok []
  | clip :: clips => do
    let edited ← edit clip
    let rest ← editEach edit clips
    .ok (edited :: rest)

/-- The tracks that an edit of every clip makes. -/
def editTracks (edit : Track → Clip → Except OpError Clip) : List Track → Except OpError (List Track)
  | [] => .ok []
  | track :: tracks => do
    let clips ← editEach (edit track) track.clips
    let rest ← editTracks edit tracks
    .ok ({ track with clips } :: rest)

/-- `relink_asset`. -/
def relinkAsset (doc : Document) (id : AssetId) (candidate : RelinkCandidate)
    (allowUnverifiedSource : Bool) : Except OpError Document := do
  let current ← okOr (.missingAsset id) (doc.asset id)
  checkRelink current candidate allowUnverifiedSource
  let relinked := { doc with
    mediaPool := doc.mediaPool.modifyFirst (fun asset => asset.id = id) fun asset =>
      { asset with path := candidate.path, sourceFingerprint := candidate.fingerprint } }
  let tracks ← editTracks (fun _ => relinkClip doc relinked id) doc.tracks
  .ok { relinked with tracks }

/-! ## Bins, string-outs and sync groups -/

def Document.setBins (doc : Document) (bins : List MediaBin) : Document :=
  { doc with catalog := { doc.catalog with bins } }

/-- `upsert_bin`. -/
def upsertBin (doc : Document) (bin : MediaBin) : Document :=
  Document.setBins doc (upsert MediaBin.id bin doc.catalog.bins)

/-- `remove_bin`. -/
def removeBin (doc : Document) (id : BinId) : Except OpError Document := do
  refuse (∃ bin ∈ doc.catalog.bins, bin.parent = some id) (.binHasChildren id)
  let bins ← removeFirst (.missingBin id) (fun bin => bin.id = id) doc.catalog.bins
  .ok (Document.setBins doc bins)

/-- The bin after the asset was put into the destination. -/
def placeInBin (asset : AssetId) (destination : Option BinId) (bin : MediaBin) : MediaBin :=
  let others := bin.assets.filter fun other => other ≠ asset
  { bin with
    assets := if some bin.id = destination then sortByKey id (others ++ [asset]) else others }

/-- `set_asset_bin`. -/
def setAssetBin (doc : Document) (asset : AssetId) (destination : Option BinId) : Except OpError Document := do
  refuse ((doc.asset asset).isNone) (.missingAsset asset)
  all (fun bin => refuse (bin ∉ doc.catalog.bins.map MediaBin.id) (.missingBin bin)) destination.toList
  .ok (Document.setBins doc (doc.catalog.bins.map (placeInBin asset destination)))

/-- `upsert_string_out`. -/
def upsertStringOut (doc : Document) (stringOut : StringOut) : Document :=
  { doc with catalog := { doc.catalog with
    stringOuts := upsert StringOut.id stringOut doc.catalog.stringOuts } }

/-- `remove_string_out`. -/
def removeStringOut (doc : Document) (id : StringOutId) : Except OpError Document := do
  let stringOuts ← removeFirst (.missingStringOut id) (fun stringOut => stringOut.id = id)
    doc.catalog.stringOuts
  .ok { doc with catalog := { doc.catalog with stringOuts } }

/-- `upsert_sync_group`. -/
def upsertSyncGroup (doc : Document) (group : SyncGroup) : Document :=
  { doc with catalog := { doc.catalog with
    syncGroups := upsert SyncGroup.id group doc.catalog.syncGroups } }

/-- `remove_sync_group`. -/
def removeSyncGroup (doc : Document) (id : SyncGroupId) : Except OpError Document := do
  let syncGroups ← removeFirst (.missingSyncGroup id) (fun group => group.id = id)
    doc.catalog.syncGroups
  .ok { doc with catalog := { doc.catalog with syncGroups } }

/-! ## Lookup tables -/

/-- `add_lut_asset`. -/
def addLutAsset (doc : Document) (asset : LutAsset) : Except OpError Document := do
  validateLutAsset asset
  refuse (asset.id ∈ doc.lutAssets.map LutAsset.id) (.duplicateLutAsset asset.id)
  .ok { doc with lutAssets := doc.lutAssets ++ [asset] }

/-- `effect_references_lut_asset`. -/
def referencesLutAsset (effect : Effect) (id : LutAssetId) : Bool :=
  let refers (value : Int64) : Bool := value.toInt = id
  isLutColorNode effect.name && ((effect.staticIntegerParameter "lut_asset_id").any refers ||
      (effect.keyframes.get? "lut_asset_id").any fun curve =>
        curve.keyframes.any fun key => refers key.value)

/-- `Document::lut_asset_references`. -/
def lutAssetReferences (doc : Document) (id : LutAssetId) : List (ClipId × EffectId) :=
  doc.clips.flatMap fun clip =>
    (clip.effects.filter (referencesLutAsset · id)).map fun effect => (clip.id, effect.id)

/-- `remove_lut_asset`. -/
def removeLutAsset (doc : Document) (id : LutAssetId) : Except OpError Document :=
  match (lutAssetReferences doc id).head? with
  | some (clip, effect) => .error (.lutAssetInUse id clip effect)
  | none => do
    let lutAssets ← removeFirst (.unknownLutAsset id) (fun asset => asset.id = id) doc.lutAssets
    .ok { doc with lutAssets }

/-! ## Markers -/

/-- The order of the markers, `(position, id)`. -/
def Marker.le (marker other : Marker) : Prop :=
  marker.position < other.position ∨ marker.position = other.position ∧ marker.id ≤ other.id

instance : DecidableRel Marker.le := fun _ _ => inferInstanceAs (Decidable (_ ∨ _))

def sortMarkers (markers : List Marker) : List Marker := markers.insertionSort Marker.le

/-- `add_marker`. -/
def addMarker (doc : Document) (marker : Marker) : Except OpError Document := do
  refuse (marker.id ∈ doc.markers.map Marker.id) (.duplicateMarker marker.id)
  validateMarker marker
  .ok { doc with markers := sortMarkers (doc.markers ++ [marker]) }

/-- `remove_marker`. -/
def removeMarker (doc : Document) (id : MarkerId) : Except OpError Document := do
  let markers ← removeFirst (.missingMarker id) (fun marker => marker.id = id) doc.markers
  .ok { doc with markers }

/-- The first marker of the id is edited, and the markers are sorted. -/
def editMarker (doc : Document) (id : MarkerId) (edit : Marker → Except OpError Marker) : Except OpError Document := do
  let marker ← okOr (.missingMarker id) (doc.markers.find? fun marker => marker.id = id)
  let edited ← edit marker
  .ok { doc with
    markers := sortMarkers (doc.markers.modifyFirst (fun marker => marker.id = id) fun _ => edited) }

/-- `move_marker`. -/
def moveMarker (doc : Document) (id : MarkerId) (target : TimeCode) : Except OpError Document := do
  refuse (target < 0) (.negativeMarkerPosition target)
  editMarker doc id fun marker => .ok { marker with position := target }

/-- The parameter of a marker is set. -/
def setParam (marker : Marker) (name : String) (value : ParamValue) : Except OpError Marker :=
  match value with
  | .text label =>
    if name = "label" then .ok { marker with label := label }
    else .error (if name = "color_token" ∨ name = "position" then .invalidMarkerParamType marker.id name
      else .unknownMarkerParam marker.id name)
  | .integer value =>
    if name = "color_token" then
      if 0 ≤ value.toInt ∧ value.toInt < 256 then
        .ok { marker with colorToken := UInt8.ofNat value.toInt.toNat }
      else .error (.invalidMarkerColor 255)
    else if name = "position" then .ok { marker with position := value }
    else .error (if name = "label" then .invalidMarkerParamType marker.id name
      else .unknownMarkerParam marker.id name)
  | .boolean _ =>
    .error (if name = "label" ∨ name = "color_token" ∨ name = "position" then
        .invalidMarkerParamType marker.id name
      else .unknownMarkerParam marker.id name)

/-- `set_marker_param`. -/
def setMarkerParam (doc : Document) (id : MarkerId) (name : String) (value : ParamValue) : Except OpError Document :=
  editMarker doc id fun marker => do
    let edited ← setParam marker name value
    validateMarker edited
    .ok edited

end Kinewright.Edits
