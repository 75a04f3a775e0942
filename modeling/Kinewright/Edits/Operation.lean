import Kinewright.Edits.ThreePoint

/-!
# Operations

`operation.rs`: the edits a project may make, one of them applied, and a batch of them with what it did to
the identity of clips.
-/

namespace Kinewright.Edits

open Fallible Model

inductive Operation
  | addAsset (asset : MediaAsset)
  | relinkAsset (asset : AssetId) (candidate : RelinkCandidate) (allowUnverifiedSource : Bool)
  | setAssetColorDescription (asset : AssetId) (colorDescription : ColorDescription)
  | setColorContext (colorContext : ColorContext)
  | upsertBin (bin : MediaBin)
  | removeBin (bin : BinId)
  | setAssetBin (asset : AssetId) (bin : Option BinId)
  | upsertStringOut (stringOut : StringOut)
  | removeStringOut (stringOut : StringOutId)
  | upsertSyncGroup (syncGroup : SyncGroup)
  | removeSyncGroup (syncGroup : SyncGroupId)
  | upsertAudioBus (bus : AudioBus)
  | removeAudioBus (bus : AudioBusId)
  | setAudioMaster (master : AudioMaster)
  | setPanLaw (law : PanLaw)
  | addTrack (track : Track)
  | removeTrack (track : TrackId)
  | setTrackSyncLock (track : TrackId) (locked : Bool)
  | setTrackMix (track : TrackId) (gainTenthDb panPercent : Int32) (mute solo : Bool)
  | setTrackAutomation (track : TrackId) (parameter : String) (curve : Option AutomationCurve)
  | addClip (track : TrackId) (asset : AssetId) (at_ : TimeCode) (source : FrameRange)
  | addTitle (track : TrackId) (at_ duration : TimeCode) (title : Title)
  | splitClip (clip : ClipId) (at_ : TimeCode)
  | trimClip (clip : ClipId) (newSource : FrameRange)
  | moveClip (clip : ClipId) (toTrack : TrackId) (at_ : TimeCode)
  | threePointEdit (track : TrackId) (asset : AssetId) (marks : Marks) (mode : ThreePointMode)
  | patchedThreePointEdit (asset : AssetId) (marks : Marks) (mode : ThreePointMode) (routes : Routes)
  | slipClip (clip : ClipId) (newSourceIn : TimeCode)
  | rollEdit (leftClip rightClip : ClipId) (at_ : TimeCode)
  | slideClip (clip : ClipId) (at_ : TimeCode)
  | replaceClip (clip : ClipId) (asset : AssetId) (source : FrameRange)
  | fitToFill (clip : ClipId) (asset : AssetId) (source : FrameRange)
  | deleteClip (clip : ClipId)
  | rippleDeleteClip (clip : ClipId)
  | rippleInsertGap (track : TrackId) (at_ duration : TimeCode)
  | linkClips (clips : List ClipId)
  | unlinkClips (clips : List ClipId)
  | addMarker (marker : Marker)
  | removeMarker (marker : MarkerId)
  | moveMarker (marker : MarkerId) (at_ : TimeCode)
  | addEffect (clip : ClipId) (effect : Effect)
  | insertEffect (clip : ClipId) (index : ℕ) (effect : Effect)
  | removeEffect (clip : ClipId) (effect : EffectId)
  | setEffectParam (clip : ClipId) (effect : EffectId) (name : String) (value : ParamValue)
  | setEffectKeyframes (clip : ClipId) (effect : EffectId) (name : String) (curve : AutomationCurve)
  | clearEffectKeyframes (clip : ClipId) (effect : EffectId) (name : String)
  | upsertEffectKeyframe (clip : ClipId) (effect : EffectId) (name : String) (key : Keyframe)
  | removeEffectKeyframe (clip : ClipId) (effect : EffectId) (name : String) (at_ : TimeCode)
  | setEffectEnabled (clip : ClipId) (effect : EffectId) (enabled : Bool)
  | setClipEnabled (clip : ClipId) (enabled : Bool)
  | setClipEnabledCurve (clip : ClipId) (curve : Option AutomationCurve)
  | copyClipAttributes (fromClip toClip : ClipId) (names : Option (List String)) (includeKeyframes : Bool)
  | convertLegacyLook (clip : ClipId) (effect : EffectId) (lutAsset : LutAssetId) (mixBasisPoints : Int64)
  | addLutAsset (asset : LutAsset)
  | removeLutAsset (lutAsset : LutAssetId)
  | setTitleParam (clip : ClipId) (name : String) (value : ParamValue)
  | setClipAudio (clip : ClipId) (gainTenthDb : Int32) (fadeInFrames fadeOutFrames : TimeCode)
  | setClipGainEnvelope (clip : ClipId) (curve : Option AutomationCurve)
  | addTransition (clip : ClipId) (transition : Transition)
  | removeTransition (clip : ClipId)
  | setMarkerParam (marker : MarkerId) (name : String) (value : ParamValue)
  | addFreezeFrame (track : TrackId) (at_ duration : TimeCode) (asset : AssetId) (sourceFrame : TimeCode)
  | setClipSpeed (clip : ClipId) (speedPercent : UInt32)
  | setClipBlendMode (clip : ClipId) (blendMode : BlendMode)
  | addAdjustmentClip (track : TrackId) (timelineStart duration : TimeCode) (effects : List Effect)
  | addSolidClip (track : TrackId) (timelineStart duration : TimeCode) (color : SolidColor)
  | setSolidColor (clip : ClipId) (color : SolidColor)
deriving DecidableEq

/-- The track of the id is removed, with its clips. -/
def Draft.removeTrack (draft : Draft) (id : TrackId) : Except OpError Draft := do
  let found ← trackOf draft.doc id
  let doc ← Edits.removeTrack draft.doc id
  .ok { doc, events := draft.events ++ found.clips.map fun clip => .removed clip.id }

/-- `apply_unchecked`, on a draft. -/
def Operation.edit (draft : Draft) : Operation → Except OpError Draft
  | .addAsset asset => draft.keep (Edits.addAsset · asset)
  | .relinkAsset asset candidate allowUnverifiedSource =>
    draft.keep (Edits.relinkAsset · asset candidate allowUnverifiedSource)
  | .setAssetColorDescription asset colorDescription =>
    draft.keep (Edits.setAssetColorDescription · asset colorDescription)
  | .setColorContext colorContext => draft.keep (Edits.setColorContext · colorContext)
  | .upsertBin bin => draft.keep (fun doc => .ok (Edits.upsertBin doc bin))
  | .removeBin bin => draft.keep (Edits.removeBin · bin)
  | .setAssetBin asset bin => draft.keep (Edits.setAssetBin · asset bin)
  | .upsertStringOut stringOut => draft.keep (fun doc => .ok (Edits.upsertStringOut doc stringOut))
  | .removeStringOut stringOut => draft.keep (Edits.removeStringOut · stringOut)
  | .upsertSyncGroup syncGroup => draft.keep (fun doc => .ok (Edits.upsertSyncGroup doc syncGroup))
  | .removeSyncGroup syncGroup => draft.keep (Edits.removeSyncGroup · syncGroup)
  | .upsertAudioBus bus => draft.keep (Edits.upsertAudioBus · bus)
  | .removeAudioBus bus => draft.keep (Edits.removeAudioBus · bus)
  | .setAudioMaster master => draft.keep (Edits.setAudioMaster · master)
  | .setPanLaw law => draft.keep (fun doc => .ok (Document.setMix doc { doc.audioMix with panLaw := law }))
  | .addTrack track => draft.keep (Edits.addTrack · track)
  | .removeTrack track => draft.removeTrack track
  | .setTrackSyncLock track locked => draft.keep (Edits.setTrackSyncLock · track locked)
  | .setTrackMix track gainTenthDb panPercent mute solo =>
    draft.keep (Edits.setTrackMix · track gainTenthDb panPercent mute solo)
  | .setTrackAutomation track parameter curve =>
    draft.keep (Edits.setTrackAutomation · track parameter curve)
  | .addClip track asset at_ source => draft.add track asset at_ source
  | .addTitle track at_ duration title => draft.make (Edits.addTitle · track at_ duration title)
  | .splitClip clip at_ => draft.split clip at_
  | .trimClip clip newSource => draft.keep (Edits.trimClip · clip newSource)
  | .moveClip clip toTrack at_ => draft.keep (Edits.moveClip · clip toTrack at_)
  | .threePointEdit track asset marks mode => Edits.threePointEdit draft track asset marks mode
  | .patchedThreePointEdit asset marks mode routes =>
    Edits.patchedThreePointEdit draft asset marks mode routes
  | .slipClip clip newSourceIn => draft.keep (Edits.slipClip · clip newSourceIn)
  | .rollEdit leftClip rightClip at_ => draft.keep (Edits.rollEdit · leftClip rightClip at_)
  | .slideClip clip at_ => draft.keep (Edits.slideClip · clip at_)
  | .replaceClip clip asset source => draft.keep (Edits.replaceClip · clip asset source false)
  | .fitToFill clip asset source => draft.keep (Edits.replaceClip · clip asset source true)
  | .deleteClip clip => draft.delete clip
  | .rippleDeleteClip clip => draft.remove clip (Edits.rippleDeleteClip · clip)
  | .rippleInsertGap track at_ duration => draft.keep (Edits.rippleInsertGap · track at_ duration)
  | .linkClips clips => draft.keep (Edits.linkClips · clips)
  | .unlinkClips clips => draft.keep (Edits.unlinkClips · clips)
  | .addMarker marker => draft.keep (Edits.addMarker · marker)
  | .removeMarker marker => draft.keep (Edits.removeMarker · marker)
  | .moveMarker marker at_ => draft.keep (Edits.moveMarker · marker at_)
  | .addEffect clip effect => draft.keep (Edits.addEffect · clip effect)
  | .insertEffect clip index effect => draft.keep (Edits.insertEffect · clip (some index) effect)
  | .removeEffect clip effect => draft.keep (Edits.removeEffect · clip effect)
  | .setEffectParam clip effect name value => draft.keep (Edits.setEffectParam · clip effect name value)
  | .setEffectKeyframes clip effect name curve =>
    draft.keep (Edits.setEffectKeyframes · clip effect name curve)
  | .clearEffectKeyframes clip effect name => draft.keep (Edits.clearEffectKeyframes · clip effect name)
  | .upsertEffectKeyframe clip effect name key =>
    draft.keep (Edits.upsertEffectKeyframe · clip effect name key)
  | .removeEffectKeyframe clip effect name at_ =>
    draft.keep (Edits.removeEffectKeyframe · clip effect name at_)
  | .setEffectEnabled clip effect enabled => draft.keep (Edits.setEffectEnabled · clip effect enabled)
  | .setClipEnabled clip enabled => draft.keep (Edits.setClipEnabled · clip enabled)
  | .setClipEnabledCurve clip curve => draft.keep (Edits.setClipEnabledCurve · clip curve)
  | .copyClipAttributes fromClip toClip names includeKeyframes =>
    draft.keep (Edits.copyClipAttributes · fromClip toClip names includeKeyframes)
  | .convertLegacyLook clip effect lutAsset mixBasisPoints =>
    draft.keep (Edits.convertLegacyLook · clip effect lutAsset mixBasisPoints)
  | .addLutAsset asset => draft.keep (Edits.addLutAsset · asset)
  | .removeLutAsset lutAsset => draft.keep (Edits.removeLutAsset · lutAsset)
  | .setTitleParam clip name value => draft.keep (Edits.setTitleParam · clip name value)
  | .setClipAudio clip gainTenthDb fadeInFrames fadeOutFrames =>
    draft.keep (Edits.setClipAudio · clip gainTenthDb fadeInFrames fadeOutFrames)
  | .setClipGainEnvelope clip curve => draft.keep (Edits.setClipGainEnvelope · clip curve)
  | .addTransition clip transition => draft.keep (Edits.addTransition · clip transition)
  | .removeTransition clip => draft.keep (Edits.removeTransition · clip)
  | .setMarkerParam marker name value => draft.keep (Edits.setMarkerParam · marker name value)
  | .addFreezeFrame track at_ duration asset sourceFrame =>
    draft.make (Edits.addFreezeFrame · track at_ duration asset sourceFrame)
  | .setClipSpeed clip speedPercent => draft.keep (Edits.setClipSpeed · clip speedPercent)
  | .setClipBlendMode clip blendMode => draft.keep (Edits.setClipBlendMode · clip blendMode)
  | .addAdjustmentClip track timelineStart duration effects =>
    draft.make (Edits.addGeneratedClip · track timelineStart duration .adjustment effects)
  | .addSolidClip track timelineStart duration color =>
    draft.make (Edits.addGeneratedClip · track timelineStart duration (.solid color) [])
  | .setSolidColor clip color => draft.keep (Edits.setSolidColor · clip color)

/-- `apply_unchecked`, and what it did to clips. -/
def Operation.draft (operation : Operation) (doc : Document) : Except OpError Draft :=
  operation.edit { doc, events := [] }

/-- What `apply` and a batch do with an operation on a valid document. -/
def Operation.step (operation : Operation) (doc : Document) : Except OpError Draft := do
  let draft ← operation.draft doc
  let candidate ← draft.doc.recomputeDuration
  candidate.validate
  .ok { draft with doc := candidate }

/-- `Operation::apply`. -/
def Operation.apply (operation : Operation) (doc : Document) : Except OpError Document := do
  doc.validate
  let draft ← operation.step doc
  .ok draft.doc

/-! ## Batches -/

/-- `clip_identities`. -/
def clipIdentities (doc : Document) : Finset ClipId := (doc.clips.map Clip.id).toFinset

structure OperationIdentityEffect where
  created : Finset ClipId
  deleted : Finset ClipId
  retained : Finset ClipId
  splitParent : Option Clip
  splitResults : List Clip
deriving DecidableEq

/-- `identity_effect`. -/
def identityEffect (before : Finset ClipId) (after : Document) (splitParent : Option Clip) :
    OperationIdentityEffect where
  created := clipIdentities after \ before
  deleted := before \ clipIdentities after
  retained := before ∩ clipIdentities after
  splitParent := splitParent
  splitResults :=
    (splitParent.map fun parent =>
      after.clips.filter fun clip => clip.id = parent.id ∨ clip.id ∉ before).getD []

/-- The clip that a split takes apart. -/
def Operation.splitParent (operation : Operation) (doc : Document) : Option Clip :=
  match operation with
  | .splitClip clip _ => doc.clip clip
  | _ => none

/-- The loop of `apply_batch_inner`: the operations after the given number of them. -/
def applyEach (done : ℕ) (doc : Document) :
    List Operation → Except (ℕ × OpError) (Document × List OperationIdentityEffect)
  | [] => .ok (doc, [])
  | operation :: operations => do
    let draft ← (operation.step doc).mapError fun error => (done + 1, error)
    let effect := identityEffect (clipIdentities doc) draft.doc (operation.splitParent doc)
    let (last, effects) ← applyEach (done + 1) draft.doc operations
    .ok (last, effect :: effects)

inductive BatchError
  | empty
  | operationFailed (opNumber : ℕ) (error : OpError)
deriving DecidableEq

/-- `apply_batch_observed`. -/
def applyBatch (doc : Document) (operations : List Operation) :
    Except BatchError (Document × List OperationIdentityEffect) :=
  let failed (failure : ℕ × OpError) : BatchError := .operationFailed failure.1 failure.2
  if operations = [] then .error .empty
  else do
    (doc.validate.mapError fun error => (1, error)).mapError failed
    (applyEach 0 doc operations).mapError failed

end Kinewright.Edits
