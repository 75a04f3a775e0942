import Kinewright.Lib.Lists
import Kinewright.Model.Document

/-!
# Valid documents

`validate_document`: the checks of the tracks and of the assets that their clips read. The checks of
everything else (colours, fingerprints, the catalogue, effects, transitions, audio, markers, the mix)
are the functions of a `Checks`; the results hold for all of them.
-/

namespace Kinewright.Model

open Fallible List

/-- The checks that read nothing of the frame resolution, in the places where they are made. -/
structure Checks where
  project : Document → Except OpError Unit
  asset : MediaAsset → Except OpError Unit
  pool : Document → Except OpError Unit
  title : ClipId → Title → TimeCode → Except OpError Unit
  clip : Document → Clip → TimeCode → Except OpError Unit
  markers : Document → Except OpError Unit
  mix : Document → Except OpError Unit

/-- `validate_asset`. -/
def validateAsset (checks : Checks) (asset : MediaAsset) : Except OpError Unit :=
  if ¬ asset.fps.IsValid then .error (.invalidAssetRate asset.id)
  else if asset.duration.toInt ≤ 0 then .error (.invalidAssetDuration asset.id)
  else checks.asset asset

/-- The loop of `validate_document` over the media pool. -/
def validatePool (checks : Checks) (seen : List AssetId) : List MediaAsset → Except OpError Unit
  | [] => .ok ()
  | asset :: assets => if asset.id ∈ seen then .error (.duplicateAsset asset.id) else do
      validateAsset checks asset
      validatePool checks (asset.id :: seen) assets

/-- `validate_track_compatibility`. -/
def validateTrackCompatibility (asset : MediaAsset) (track : Track) : Except OpError Unit :=
  if asset.kind.supports track.kind then .ok ()
  else .error (.incompatibleTrack asset.id track.kind track.id)

/-- `validate_title_range`. -/
def validateTitleRange (source : FrameRange) : Except OpError Unit :=
  if source.start.toInt < 0 ∨ source.stop ≤ source.start then
    .error (.invalidSourceRange source.start source.stop)
  else .ok ()

/-- `validate_source_range`. -/
def validateSourceRange (asset : MediaAsset) (source : FrameRange) : Except OpError Unit :=
  if source.start.toInt < 0 ∨ source.stop ≤ source.start then
    .error (.invalidSourceRange source.start source.stop)
  else if asset.duration < source.stop then
    .error (.sourceOutOfBounds asset.id source.stop asset.duration)
  else .ok ()

/-- `validate_clip_speed`. -/
def validateClipSpeed (speedPercent : UInt32) : Except OpError Unit :=
  if 10 ≤ speedPercent.toNat ∧ speedPercent.toNat ≤ 1000 then .ok ()
  else .error (.clipSpeedOutOfRange speedPercent)

/-- `validate_freeze_source_frame`. -/
def validateFreezeSourceFrame (asset : MediaAsset) (sourceFrame : TimeCode) : Except OpError Unit :=
  if sourceFrame.toInt < 0 ∨ asset.duration ≤ sourceFrame then
    .error (.freezeSourceFrameOutOfRange asset.id sourceFrame asset.duration)
  else .ok ()

/-- `validate_clip_enabled_curve`. -/
def validateClipEnabledCurve (clip : ClipId) (curve : AutomationCurve) : Except OpError Unit := do
  curve.validateOrdered.mapError (.invalidEnabledCurve clip)
  match curve.keyframes.find? fun key => key.value.toInt < 0 ∨ 1 < key.value.toInt with
  | some key => .error (.enabledCurveOutOfRange clip key.value)
  | none => .ok ()

/-- The check of a clip's keyframed enable. -/
def validateEnabled (clip : Clip) : Except OpError Unit :=
  match clip.enabledCurve with
  | some curve => validateClipEnabledCurve clip.id curve
  | none => .ok ()

/-- What `validate_document` checks of a clip that only covers a span, which is on video tracks. -/
def validateSpan (track : Track) (clip : Clip) (check : Except OpError Unit) : Except OpError Unit :=
  if track.kind ≠ .video then .error (.spanOnAudioTrack clip.content track.id)
  else check

/-- The match of `validate_document` over a clip's content. -/
def validateContent (checks : Checks) (doc : Document) (track : Track) (clip : Clip) : Except OpError Unit :=
  match clip.content with
  | .media => do
    let asset ← okOr (.missingAsset clip.asset) (doc.asset clip.asset)
    validateTrackCompatibility asset track
    validateSourceRange asset clip.sourceRange
    validateClipSpeed clip.speedPercent
  | .title title => validateSpan track clip do
      validateTitleRange clip.sourceRange
      let duration ← doc.clipDuration clip
      checks.title clip.id title duration
  | .freeze sourceFrame => validateSpan track clip do
      let asset ← okOr (.missingAsset clip.asset) (doc.asset clip.asset)
      validateTrackCompatibility asset track
      validateFreezeSourceFrame asset sourceFrame
      validateTitleRange clip.sourceRange
  | .adjustment => validateSpan track clip (validateTitleRange clip.sourceRange)
  | .solid _ => validateSpan track clip (validateTitleRange clip.sourceRange)

/-- What `validate_document` checks of one clip by itself; its end. -/
def validateClip (checks : Checks) (doc : Document) (track : Track) (clip : Clip) : Except OpError TimeCode :=
  if clip.timelineStart.toInt < 0 then .error (.negativeTimelinePosition clip.timelineStart)
  else do
    validateContent checks doc track clip
    if !clip.content.isMedia && clip.speedPercent != 100 then .error (.speedOnNonMediaClip clip.id)
    else
      let duration ← doc.clipDuration clip
      if duration.toInt ≤ 0 then .error (.zeroProjectDuration clip.id)
      else
        let stop ← okOr .timeOverflow (checkedAdd clip.timelineStart duration)
        checks.clip doc clip duration
        validateEnabled clip
        .ok stop

/-- The clip is not before the previous one of its track, and does not overlap it. -/
def validateOrder (track : Track) (previous : Option (Clip × TimeCode)) (clip : Clip) : Except OpError Unit :=
  match previous with
  | none => .ok ()
  | some (previous, stop) =>
    if clip.timelineStart < previous.timelineStart then
      .error (.clipsUnsorted track.id previous.id clip.id)
    else if clip.timelineStart < stop then .error (.clipOverlap track.id previous.id clip.id)
    else .ok ()

/-- The clip ids so far, and the last end of a clip. -/
structure Seen where
  clipIds : List ClipId
  expectedDuration : TimeCode

/-- The loop of `validate_document` over the clips of one track. -/
def validateClips (checks : Checks) (doc : Document) (track : Track) :
    List Clip → Option (Clip × TimeCode) → Seen → Except OpError Seen
  | [], _, seen => .ok seen
  | clip :: clips, previous, seen => if clip.id ∈ seen.clipIds then .error (.duplicateClip clip.id) else do
      let stop ← validateClip checks doc track clip
      validateOrder track previous clip
      validateClips checks doc track clips (some (clip, stop))
        { clipIds := clip.id :: seen.clipIds
          expectedDuration := if seen.expectedDuration < stop then stop else seen.expectedDuration }

/-- The loop of `validate_document` over the tracks. -/
def validateTracks (checks : Checks) (doc : Document) : List Track → List TrackId → Seen → Except OpError Seen
  | [], _, seen => .ok seen
  | track :: tracks, trackIds, seen => if track.id ∈ trackIds then .error (.duplicateTrack track.id) else do
      let seen ← validateClips checks doc track track.clips none seen
      validateTracks checks doc tracks (track.id :: trackIds) seen

/-- `validate_document`. -/
def validateDocument (checks : Checks) (doc : Document) : Except OpError Unit :=
  if ¬ doc.fps.IsValid then .error .invalidProjectRate
  else do
    checks.project doc
    validatePool checks [] doc.mediaPool
    checks.pool doc
    let seen ← validateTracks checks doc doc.tracks [] { clipIds := [], expectedDuration := 0 }
    checks.markers doc
    if doc.duration ≠ seen.expectedDuration then
      .error (.incorrectDocumentDuration seen.expectedDuration doc.duration)
    else
      checks.mix doc

/-! ## What valid documents have -/

variable {checks : Checks} {doc : Document} {track : Track}

/-- What the frame resolution relies on of a clip on a track. -/
structure ClipFits (doc : Document) (track : Track) (clip : Clip) : Prop where
  start : 0 ≤ clip.timelineStart.toInt
  range : clip.content = .media → 0 ≤ clip.sourceRange.start.toInt ∧ clip.sourceRange.start < clip.sourceRange.stop
  asset : clip.content.referencesAsset → ∃ asset, doc.asset clip.asset = some asset ∧
    asset.kind.supports track.kind ∧ ∀ sourceFrame, clip.content = .freeze sourceFrame → sourceFrame < asset.duration
  span : ¬ clip.content.isMedia → track.kind = .video
  duration : ∃ duration, doc.clipDuration clip = .ok duration ∧ 0 < duration.toInt
  enabledCurve : ∀ curve ∈ clip.enabledCurve, curve.validateOrdered = .ok ()

variable {clip : Clip}

theorem validateSpan_ok {check : Except OpError Unit} (h : validateSpan track clip check = .ok ()) :
    track.kind = .video ∧ check = .ok () := by
  rw [validateSpan, unless_eq_ok, not_not] at h
  exact h

theorem validateContent_ok (h : validateContent checks doc track clip = .ok ()) :
    (clip.content = .media → 0 ≤ clip.sourceRange.start.toInt ∧ clip.sourceRange.start < clip.sourceRange.stop) ∧
    (clip.content.referencesAsset → ∃ asset, doc.asset clip.asset = some asset ∧
      asset.kind.supports track.kind ∧ ∀ sourceFrame, clip.content = .freeze sourceFrame →
        sourceFrame < asset.duration) ∧
    (¬ clip.content.isMedia → track.kind = .video) := by
  unfold validateContent at h
  cases hcontent : clip.content with
  | media =>
    simp only [hcontent, bind_eq_ok, okOr_eq_ok] at h
    obtain ⟨asset, hasset, ⟨⟩, hkind, ⟨⟩, hrange, -⟩ := h
    rw [validateTrackCompatibility] at hkind
    rw [validateSourceRange, unless_eq_ok] at hrange
    have hsupports : asset.kind.supports track.kind := by
      by_contra hnot
      rw [if_neg hnot] at hkind
      cases hkind
    refine ⟨fun _ => ?_, fun _ => ⟨asset, hasset, hsupports, by rintro _ ⟨⟩⟩, fun hnot => absurd rfl hnot⟩
    rw [Int64.lt_iff_toInt_lt]
    simp only [Int64.le_iff_toInt_le] at hrange
    omega
  | freeze sourceFrame =>
    simp only [hcontent] at h
    obtain ⟨hvideo, h⟩ := validateSpan_ok h
    simp only [bind_eq_ok, okOr_eq_ok] at h
    obtain ⟨asset, hasset, ⟨⟩, hkind, ⟨⟩, hframe, -⟩ := h
    rw [validateTrackCompatibility] at hkind
    have hsupports : asset.kind.supports track.kind := by
      by_contra hnot
      rw [if_neg hnot] at hkind
      cases hkind
    rw [validateFreezeSourceFrame, unless_eq_ok, not_or, Int64.not_le] at hframe
    refine ⟨by rintro ⟨⟩, fun _ => ⟨asset, hasset, hsupports, ?_⟩, fun _ => hvideo⟩
    rintro _ ⟨⟩
    exact hframe.1.2
  | title title | adjustment | solid color =>
    simp only [hcontent] at h
    exact ⟨by rintro ⟨⟩, by rintro ⟨⟩, fun _ => (validateSpan_ok h).1⟩

/-- A clip that is valid by itself. -/
theorem validateClip_ok {stop : TimeCode} (h : validateClip checks doc track clip = .ok stop) :
    ClipFits doc track clip ∧ doc.clipEnd clip = .ok stop := by
  rw [validateClip, unless_eq_ok, bind_eq_ok] at h
  obtain ⟨hstart, ⟨⟩, hcontent, h⟩ := h
  rw [unless_eq_ok, bind_eq_ok] at h
  obtain ⟨-, duration, hduration, h⟩ := h
  rw [unless_eq_ok, bind_eq_ok] at h
  obtain ⟨hpos, stop', hstop, h⟩ := h
  obtain ⟨⟨⟩, -, h⟩ := bind_eq_ok.mp h
  obtain ⟨⟨⟩, hcurve, hstop'⟩ := bind_eq_ok.mp h
  obtain rfl := Except.ok.inj hstop'
  obtain ⟨hrange, hasset, hspan⟩ := validateContent_ok hcontent
  refine ⟨⟨by omega, hrange, hasset, hspan, ⟨duration, hduration, by omega⟩, ?_⟩, ?_⟩
  · intro curve hmem
    rw [Option.mem_def] at hmem
    simp only [validateEnabled, hmem] at hcurve
    rw [validateClipEnabledCurve, bind_eq_ok] at hcurve
    obtain ⟨⟨⟩, hordered, -⟩ := hcurve
    exact mapError_eq_ok.mp hordered
  · rw [Document.clipEnd, hduration]
    exact hstop

/-- Each clip of a track ends before the next ones start. -/
def Apart (doc : Document) (clips : List Clip) : Prop :=
  clips.Pairwise fun clip next => ∀ stop, doc.clipEnd clip = .ok stop → stop ≤ next.timelineStart

/-- What the loop over the clips of a track has checked when it is through. -/
structure ClipsFit (doc : Document) (track : Track) (clips : List Clip)
    (previous : Option (Clip × TimeCode)) (seen seen' : Seen) : Prop where
  fits : ∀ clip ∈ clips, ClipFits doc track clip
  stops : ∀ clip ∈ clips, ∃ stop, doc.clipEnd clip = .ok stop ∧ stop ≤ seen'.expectedDuration
  apart : Apart doc clips
  previous : ∀ entry ∈ previous, ∀ clip ∈ clips, entry.2 ≤ clip.timelineStart
  clipIds : seen'.clipIds = (clips.map Clip.id).reverse ++ seen.clipIds
  nodup : seen.clipIds.Nodup → seen'.clipIds.Nodup
  duration : seen.expectedDuration ≤ seen'.expectedDuration

theorem le_last (a b : TimeCode) : a ≤ (if a < b then b else a) ∧ b ≤ if a < b then b else a := by
  simp only [Int64.lt_iff_toInt_lt, Int64.le_iff_toInt_le]
  split <;> omega

theorem ClipFits.start_lt {stop : TimeCode} (h : ClipFits doc track clip)
    (hstop : doc.clipEnd clip = .ok stop) : clip.timelineStart < stop := by
  obtain ⟨duration, hduration, hpos⟩ := h.duration
  rw [Document.clipEnd, hduration, ok_bind, okOr_eq_ok, checkedAdd_eq_some] at hstop
  rw [Int64.lt_iff_toInt_lt]
  omega

theorem validateOrder_ok {previous : Option (Clip × TimeCode)} (h : validateOrder track previous clip = .ok ()) :
    ∀ entry ∈ previous, entry.2 ≤ clip.timelineStart := by
  rintro ⟨other, stop⟩ hentry
  subst hentry
  simp only [validateOrder, unless_eq_ok, Int64.not_lt] at h
  exact h.2.1

theorem validateClips_ok {clips : List Clip} {previous : Option (Clip × TimeCode)}
    {seen seen' : Seen} (h : validateClips checks doc track clips previous seen = .ok seen') :
    ClipsFit doc track clips previous seen seen' := by
  induction clips generalizing previous seen with
  | nil =>
    obtain rfl := Except.ok.inj h
    exact ⟨forall_mem_nil _, forall_mem_nil _, .nil, fun _ _ => forall_mem_nil _, rfl, id, Int64.le_refl _⟩
  | cons clip clips ih =>
    rw [validateClips, unless_eq_ok, bind_eq_ok] at h
    obtain ⟨hfresh, stop, hclip, h⟩ := h
    obtain ⟨⟨⟩, horder, h⟩ := bind_eq_ok.mp h
    obtain ⟨hfits, hstop⟩ := validateClip_ok hclip
    have hrest := ih h
    have hlast := le_last seen.expectedDuration stop
    have hafter := hrest.previous (clip, stop) rfl
    refine ⟨?_, ?_, ?_, ?_, ?_, ?_, Int64.le_trans hlast.1 hrest.duration⟩
    · exact forall_mem_cons.mpr ⟨hfits, hrest.fits⟩
    · refine forall_mem_cons.mpr ⟨⟨stop, hstop, ?_⟩, hrest.stops⟩
      exact Int64.le_trans hlast.2 hrest.duration
    · refine pairwise_cons.mpr ⟨?_, hrest.apart⟩
      intro next hnext stop' hstop'
      rw [hstop, Except.ok.injEq] at hstop'
      exact hstop' ▸ hafter next hnext
    · intro entry hentry
      have hfirst := validateOrder_ok horder entry hentry
      refine forall_mem_cons.mpr ⟨hfirst, fun next hnext => ?_⟩
      have hlt := hfits.start_lt hstop
      exact Int64.le_trans hfirst (Int64.le_trans (Int64.le_of_lt hlt) (hafter next hnext))
    · rw [hrest.clipIds, map_cons, reverse_cons, append_assoc]
      rfl
    · exact fun hnodup => hrest.nodup (nodup_cons.mpr ⟨hfresh, hnodup⟩)

/-- What valid documents have: ids occur once, every clip fits its track, the clips of a track are
apart, and none ends after the document. -/
structure Document.Fits (doc : Document) : Prop where
  fps : doc.fps.IsValid
  trackIds : (doc.tracks.map Track.id).Nodup
  clipIds : (doc.clips.map Clip.id).Nodup
  clips : ∀ track ∈ doc.tracks, ∀ clip ∈ track.clips, ClipFits doc track clip
  apart : ∀ track ∈ doc.tracks, Apart doc track.clips
  stops : ∀ clip ∈ doc.clips, ∃ stop, doc.clipEnd clip = .ok stop ∧ stop ≤ doc.duration

/-- What the loop over the tracks has checked when it is through. -/
structure TracksFit (doc : Document) (tracks : List Track) (trackIds : List TrackId) (seen seen' : Seen) : Prop where
  trackIds : (tracks.map Track.id).Nodup ∧ ∀ track ∈ tracks, track.id ∉ trackIds
  fits : ∀ track ∈ tracks, ∀ clip ∈ track.clips, ClipFits doc track clip
  apart : ∀ track ∈ tracks, Apart doc track.clips
  stops : ∀ clip ∈ tracks.flatMap Track.clips, ∃ stop, doc.clipEnd clip = .ok stop ∧ stop ≤ seen'.expectedDuration
  clipIds : seen'.clipIds = ((tracks.flatMap Track.clips).map Clip.id).reverse ++ seen.clipIds
  nodup : seen.clipIds.Nodup → seen'.clipIds.Nodup
  duration : seen.expectedDuration ≤ seen'.expectedDuration

theorem validateTracks_ok {tracks : List Track} {trackIds : List TrackId} {seen seen' : Seen}
    (h : validateTracks checks doc tracks trackIds seen = .ok seen') :
    TracksFit doc tracks trackIds seen seen' := by
  induction tracks generalizing trackIds seen with
  | nil =>
    obtain rfl := Except.ok.inj h
    exact ⟨⟨nodup_nil, forall_mem_nil _⟩, forall_mem_nil _, forall_mem_nil _,
      forall_mem_nil _, rfl, id, Int64.le_refl _⟩
  | cons track tracks ih =>
    rw [validateTracks, unless_eq_ok, bind_eq_ok] at h
    obtain ⟨hfresh, next, hclips, h⟩ := h
    have hfirst := validateClips_ok hclips
    have hrest := ih h
    refine ⟨⟨?_, ?_⟩, ?_, ?_, ?_, ?_, ?_, Int64.le_trans hfirst.duration hrest.duration⟩
    · refine nodup_cons.mpr ⟨?_, hrest.trackIds.1⟩
      intro hmem
      obtain ⟨other, hother, heq⟩ := mem_map.mp hmem
      exact hrest.trackIds.2 other hother (heq ▸ mem_cons_self)
    · refine forall_mem_cons.mpr ⟨hfresh, fun other hother hmem => ?_⟩
      exact hrest.trackIds.2 other hother (mem_cons_of_mem _ hmem)
    · exact forall_mem_cons.mpr ⟨hfirst.fits, hrest.fits⟩
    · exact forall_mem_cons.mpr ⟨hfirst.apart, hrest.apart⟩
    · intro clip hclip
      rcases mem_append.mp hclip with hmem | hmem
      · obtain ⟨stop, hstop, hle⟩ := hfirst.stops clip hmem
        exact ⟨stop, hstop, Int64.le_trans hle hrest.duration⟩
      · exact hrest.stops clip hmem
    · rw [hrest.clipIds, hfirst.clipIds, flatMap_cons, map_append, reverse_append, append_assoc]
    · exact fun hnodup => hrest.nodup (hfirst.nodup hnodup)

theorem validateDocument_ok (h : validateDocument checks doc = .ok ()) : doc.Fits := by
  rw [validateDocument, unless_eq_ok, not_not, bind_eq_ok] at h
  obtain ⟨hfps, ⟨⟩, -, h⟩ := h
  obtain ⟨⟨⟩, -, h⟩ := bind_eq_ok.mp h
  obtain ⟨⟨⟩, -, h⟩ := bind_eq_ok.mp h
  obtain ⟨seen, htracks, h⟩ := bind_eq_ok.mp h
  obtain ⟨⟨⟩, -, h⟩ := bind_eq_ok.mp h
  rw [unless_eq_ok, not_not] at h
  have hfit := validateTracks_ok htracks
  refine ⟨hfps, hfit.trackIds.1, ?_, hfit.fits, hfit.apart, ?_⟩
  · have hnodup := hfit.nodup nodup_nil
    rw [hfit.clipIds, append_nil, nodup_reverse] at hnodup
    exact hnodup
  · rw [h.1]
    exact hfit.stops

theorem mem_clips (htrack : track ∈ doc.tracks) (hclip : clip ∈ track.clips) : clip ∈ doc.clips :=
  mem_flatMap.mpr ⟨track, htrack, hclip⟩

namespace Document.Fits

theorem clip_eq_some (h : doc.Fits) {clip : Clip} (hclip : clip ∈ doc.clips) : doc.clip clip.id = some clip :=
  find?_key h.clipIds hclip

/-- The clip of an id is the only one. -/
theorem eq_of_id (h : doc.Fits) {clip other : Clip} (hclip : clip ∈ doc.clips)
    (hother : other ∈ doc.clips) (heq : clip.id = other.id) : clip = other :=
  inj_on_of_nodup_map h.clipIds hclip hother heq

theorem trackClipIds (h : doc.Fits) (htrack : track ∈ doc.tracks) : (track.clips.map Clip.id).Nodup := by
  have hids := h.clipIds
  rw [Document.clips, map_flatMap] at hids
  exact (nodup_flatMap.mp hids).1 track htrack

/-- A clip is on one track only. -/
theorem eq_track (h : doc.Fits) {other : Track} {clip : Clip} (htrack : track ∈ doc.tracks)
    (hother : other ∈ doc.tracks) (hclip : clip ∈ track.clips) (hclip' : clip ∈ other.clips) :
    track = other := by
  obtain ⟨-, hdisjoint⟩ := nodup_flatMap.mp h.clipIds.of_map
  have : Std.Symm (Function.onFun List.Disjoint Track.clips) := ⟨fun _ _ hd => hd.symm⟩
  by_contra hne
  exact hdisjoint.forall htrack hother hne hclip hclip'

end Document.Fits

end Kinewright.Model
