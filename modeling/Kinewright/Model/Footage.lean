import Kinewright.Model.Checks

/-!
# What a validation reads of the media

A document is checked against the rates, the durations and the kinds of its assets. Documents that agree on
these, and on the project rate and the lookup tables, have the same valid tracks and catalogue.
-/

namespace Kinewright.Model

open Fallible

/-- What is read of an asset that something refers to. -/
structure Footage where
  id : AssetId
  duration : TimeCode
  fps : Rational
  kind : MediaKind
deriving DecidableEq

def MediaAsset.footage (asset : MediaAsset) : Footage where
  id := asset.id
  duration := asset.duration
  fps := asset.fps
  kind := asset.kind

/-- The documents refer to the same media. -/
structure SameFootage (doc after : Document) : Prop where
  fps : after.fps = doc.fps
  lutAssets : after.lutAssets = doc.lutAssets
  footage : ∀ id, (after.asset id).map MediaAsset.footage = (doc.asset id).map MediaAsset.footage

namespace SameFootage

variable {doc after : Document}

theorem symm (h : SameFootage doc after) : SameFootage after doc :=
  ⟨h.fps.symm, h.lutAssets.symm, fun id => (h.footage id).symm⟩

/-- An asset is in neither pool, or in both, and is the same footage. -/
theorem asset (h : SameFootage doc after) (id : AssetId) :
    (doc.asset id = none ∧ after.asset id = none) ∨ ∃ asset asset', doc.asset id = some asset ∧
      after.asset id = some asset' ∧ asset'.id = asset.id ∧ asset'.duration = asset.duration ∧
        asset'.fps = asset.fps ∧ asset'.kind = asset.kind := by
  have hid := h.footage id
  cases hasset : doc.asset id with
  | none =>
    rw [hasset, Option.map_none, Option.map_eq_none_iff] at hid
    exact .inl ⟨rfl, hid⟩
  | some asset =>
    rw [hasset, Option.map_some, Option.map_eq_some_iff] at hid
    obtain ⟨asset', hasset', heq⟩ := hid
    obtain ⟨hid, hduration, hfps, hkind⟩ := Footage.mk.inj heq
    exact .inr ⟨asset, asset', rfl, hasset', hid, hduration, hfps, hkind⟩

theorem asset_isNone (h : SameFootage doc after) (id : AssetId) : (after.asset id).isNone = (doc.asset id).isNone := by
  rcases h.asset id with ⟨hnone, hnone'⟩ | ⟨asset, asset', hsome, hsome', -⟩
  · rw [hnone, hnone']
  · rw [hsome, hsome']
    rfl

/-! ## Clips -/

theorem clipDuration (h : SameFootage doc after) (clip : Clip) : after.clipDuration clip = doc.clipDuration clip := by
  rw [Document.clipDuration, Document.clipDuration, h.fps]
  rcases h.asset clip.asset with ⟨hnone, hnone'⟩ | ⟨asset, asset', hsome, hsome', -, -, hfps, -⟩
  · rw [hnone, hnone']
  · rw [hsome, hsome', okOr_some, okOr_some, ok_bind, ok_bind, hfps]

theorem clipEnd (h : SameFootage doc after) (clip : Clip) : after.clipEnd clip = doc.clipEnd clip := by
  rw [Document.clipEnd, Document.clipEnd, h.clipDuration]

theorem lastEnd (h : SameFootage doc after) (clips : List Clip) (duration : TimeCode) :
    after.lastEnd clips duration = doc.lastEnd clips duration := by
  induction clips generalizing duration with
  | nil => rfl
  | cons clip clips ih => simp [Document.lastEnd, h.clipEnd, ih]

theorem validateSourceRange {asset asset' : MediaAsset} (hid : asset'.id = asset.id)
    (hduration : asset'.duration = asset.duration) (source : FrameRange) :
    Model.validateSourceRange asset' source = Model.validateSourceRange asset source := by
  rw [Model.validateSourceRange, Model.validateSourceRange, hid, hduration]

section

variable (h : SameFootage doc after)

include h

theorem validateContent (track : Track) (clip : Clip) :
    Model.validateContent coreChecks after track clip = Model.validateContent coreChecks doc track clip := by
  unfold Model.validateContent
  rcases h.asset clip.asset with ⟨hnone, hnone'⟩ | ⟨asset, asset', hsome, hsome', hid, hduration, -, hkind⟩
  · rw [hnone, hnone', h.clipDuration]
  · have hcompatible : validateTrackCompatibility asset' track = validateTrackCompatibility asset track := by
      rw [validateTrackCompatibility, validateTrackCompatibility, hid, hkind]
    have hfreeze (sourceFrame : TimeCode) :
        validateFreezeSourceFrame asset' sourceFrame = validateFreezeSourceFrame asset sourceFrame := by
      rw [validateFreezeSourceFrame, validateFreezeSourceFrame, hid, hduration]
    simp [hsome, hsome', hcompatible, validateSourceRange hid hduration, hfreeze, h.clipDuration]

theorem validateLutNodeReferences (clip : ClipId) (effect : Effect) :
    Model.validateLutNodeReferences after clip effect = Model.validateLutNodeReferences doc clip effect := by
  have hreference (value : Int64) : validateLutReference after clip effect.id value
      = validateLutReference doc clip effect.id value := by
    rw [validateLutReference, validateLutReference, h.lutAssets]
  simp [Model.validateLutNodeReferences, hreference]

theorem validateClipData (clip : Clip) (clipDuration : TimeCode) :
    Model.validateClipData after clip clipDuration = Model.validateClipData doc clip clipDuration := by
  have heffect : validateClipEffect after clip clipDuration = validateClipEffect doc clip clipDuration := by
    funext before effect
    simp [validateClipEffect, h.validateLutNodeReferences]
  have htransition : validateTransition after clip = validateTransition doc clip := by
    funext transition
    simp [validateTransition, h.clipDuration]
  have haudio : validateClipAudio after clip = validateClipAudio doc clip := by
    simp [validateClipAudio, h.clipDuration]
  simp [Model.validateClipData, heffect, htransition, haudio]

theorem validateClip (track : Track) (clip : Clip) :
    Model.validateClip coreChecks after track clip = Model.validateClip coreChecks doc track clip := by
  have hdata (clipDuration : TimeCode) :
      coreChecks.clip after clip clipDuration = coreChecks.clip doc clip clipDuration :=
    h.validateClipData clip clipDuration
  simp [Model.validateClip, h.validateContent, h.clipDuration, hdata]

theorem validateClips (track : Track) (clips : List Clip) (previous : Option (Clip × TimeCode)) (seen : Seen) :
    Model.validateClips coreChecks after track clips previous seen
      = Model.validateClips coreChecks doc track clips previous seen := by
  induction clips generalizing previous seen with
  | nil => rfl
  | cons clip clips ih => simp [Model.validateClips, h.validateClip, ih]

theorem validateTracks (tracks : List Track) (ids : List TrackId) (seen : Seen) :
    Model.validateTracks coreChecks after tracks ids seen = Model.validateTracks coreChecks doc tracks ids seen := by
  induction tracks generalizing ids seen with
  | nil => rfl
  | cons track tracks ih => simp [Model.validateTracks, h.validateClips, ih]

end

/-! ## The catalogue -/

theorem validateCatalog (h : SameFootage doc after) (hcatalog : after.catalog = doc.catalog) :
    Model.validateCatalog after = Model.validateCatalog doc := by
  have hbin : validateBin after = validateBin doc := by
    funext before bin
    have hasset : validateBinAsset after before bin = validateBinAsset doc before bin := by
      funext seen asset
      simp [validateBinAsset, h.asset_isNone]
    simp [validateBin, hasset]
  have hselect (select : SourceSelect) :
      (okOr (OpError.missingAsset select.asset) (after.asset select.asset) >>= fun asset =>
        Model.validateSourceRange asset select.source)
      = okOr (.missingAsset select.asset) (doc.asset select.asset) >>= fun asset =>
        Model.validateSourceRange asset select.source := by
    rcases h.asset select.asset with ⟨hnone, hnone'⟩ | ⟨asset, asset', hsome, hsome', hid, hduration, -⟩
    · rw [hnone, hnone']
    · rw [hsome, hsome', okOr_some, okOr_some, ok_bind, ok_bind, validateSourceRange hid hduration]
  have hstringOut : validateStringOut after = validateStringOut doc := by
    funext before stringOut
    simp [validateStringOut, hselect]
  have hgroup : validateSyncGroup after = validateSyncGroup doc := by
    funext before group
    simp only [validateSyncGroup, h.asset_isNone]
  simp [Model.validateCatalog, hbin, hstringOut, hgroup, hcatalog]

end SameFootage

/-! ## The parts of a valid document -/

variable {doc : Document}

/-- What `validate_document` accepts, part by part. -/
structure Document.Valid (doc : Document) : Prop where
  fps : doc.fps.IsValid
  project : coreChecks.project doc = .ok ()
  mediaPool : validatePool coreChecks [] doc.mediaPool = .ok ()
  pool : coreChecks.pool doc = .ok ()
  tracks : ∃ clipIds, validateTracks coreChecks doc doc.tracks [] { clipIds := [], expectedDuration := 0 }
    = .ok { clipIds, expectedDuration := doc.duration }
  markers : coreChecks.markers doc = .ok ()
  mix : validateMix doc = .ok ()

theorem Document.valid_iff : doc.Valid ↔ doc.validate = .ok () := by
  rw [Document.validate, validateDocument]
  simp only [bind_eq_ok, unless_eq_ok, not_not]
  constructor
  · rintro ⟨hfps, hproject, hpool, hcatalog, ⟨clipIds, htracks⟩, hmarkers, hmix⟩
    exact ⟨hfps, (), hproject, (), hpool, (), hcatalog, _, htracks, (), hmarkers, rfl, hmix⟩
  · rintro ⟨hfps, ⟨⟩, hproject, ⟨⟩, hpool, ⟨⟩, hcatalog, seen, htracks, ⟨⟩, hmarkers, hduration, hmix⟩
    exact ⟨hfps, hproject, hpool, hcatalog, ⟨seen.clipIds, hduration ▸ htracks⟩, hmarkers, hmix⟩

theorem Document.Valid.fits (h : doc.Valid) : doc.Fits := validateDocument_ok (valid_iff.mp h)

/-! ## The duration of a valid document -/

theorem lastEnd_of_validateClips {checks : Checks} {track : Track} {clips rest : List Clip}
    {previous : Option (Clip × TimeCode)} {seen seen' : Seen}
    (h : validateClips checks doc track clips previous seen = .ok seen') :
    doc.lastEnd (clips ++ rest) seen.expectedDuration = doc.lastEnd rest seen'.expectedDuration := by
  induction clips generalizing previous seen with
  | nil =>
    obtain rfl := Except.ok.inj h
    rfl
  | cons clip clips ih =>
    rw [validateClips, unless_eq_ok, bind_eq_ok] at h
    obtain ⟨-, stop, hclip, h⟩ := h
    obtain ⟨⟨⟩, -, h⟩ := bind_eq_ok.mp h
    rw [List.cons_append, Document.lastEnd, (validateClip_ok hclip).2]
    exact ih h

theorem lastEnd_of_validateTracks {checks : Checks} {tracks : List Track} {ids : List TrackId}
    {seen seen' : Seen} (h : validateTracks checks doc tracks ids seen = .ok seen') :
    doc.lastEnd (tracks.flatMap Track.clips) seen.expectedDuration = .ok seen'.expectedDuration := by
  induction tracks generalizing ids seen with
  | nil =>
    obtain rfl := Except.ok.inj h
    rfl
  | cons track tracks ih =>
    rw [validateTracks, unless_eq_ok, bind_eq_ok] at h
    obtain ⟨-, next, hclips, h⟩ := h
    rw [List.flatMap_cons, lastEnd_of_validateClips hclips]
    exact ih h

/-- The duration of a valid document is the last end of its clips. -/
theorem Document.Valid.lastEnd (h : doc.Valid) : doc.lastEnd doc.clips 0 = .ok doc.duration := by
  obtain ⟨clipIds, htracks⟩ := h.tracks
  exact lastEnd_of_validateTracks htracks

/-- A valid document is not changed when its duration is computed anew. -/
theorem Document.Valid.recomputeDuration (h : doc.Valid) : doc.recomputeDuration = .ok doc := by
  have hlt : ¬ doc.duration < doc.duration := Int64.lt_irrefl
  rw [Document.recomputeDuration, h.lastEnd, ok_bind, if_neg hlt]

end Kinewright.Model
