import Kinewright.Model.Validate

/-!
# What a project frame shows

`timeline.rs`: the active clip of a track at a project frame, the source frame that a media clip
shows there, and the layers of the video tracks from the bottom to the top. Shading is left out: it
is computed in floating point and decides nothing of what is shown.
-/

namespace Kinewright.Timeline

open Fallible Model List Int64 Grid Document

/-- `MediaError::Backend`, by its text. -/
inductive MediaError
  /-- `timeline clip {} references missing asset {}` -/
  | missingAsset (clip : ClipId) (asset : AssetId)
  /-- The text of an operation error. -/
  | operation (error : OpError)
  /-- The text of a mapping error. -/
  | mapping (error : TimeMappingError)
  /-- `timeline position overflowed` -/
  | timelineOverflow
  /-- `timeline position underflowed` -/
  | timelineUnderflow
  /-- `source position overflowed` -/
  | sourceOverflow
  /-- `active timeline clip disappeared` -/
  | clipDisappeared
  /-- `timeline audio range must be non-empty and non-negative: {}..{}` -/
  | emptyAudioRange (start stop : TimeCode)
  /-- `timeline audio position overflowed` -/
  | audioOverflow
deriving DecidableEq

structure TimelineSource where
  track : TrackId
  clip : ClipId
  asset : AssetId
  sourceAt : TimeCode
  sourceEnd : TimeCode
  timelineEnd : TimeCode
deriving DecidableEq

structure TimelineVideoLayer where
  source : TimelineSource
  effects : List Effect
  blendMode : BlendMode
deriving DecidableEq

inductive TimelineVisualLayer
  | video (layer : TimelineVideoLayer)
  | title (track : TrackId) (clip : ClipId) (title : Title) (effects : List Effect) (blendMode : BlendMode)
  | solid (track : TrackId) (clip : ClipId) (color : SolidColor) (effects : List Effect) (blendMode : BlendMode)
  | adjustment (track : TrackId) (clip : ClipId) (effects : List Effect) (blendMode : BlendMode)
deriving DecidableEq

namespace TimelineVisualLayer

/-- `TimelineVisualLayer::clip`. -/
def clip : TimelineVisualLayer → ClipId
  | .video layer => layer.source.clip
  | .title _ clip _ _ _ | .solid _ clip _ _ _ | .adjustment _ clip _ _ => clip

/-- The track that a layer was resolved on. -/
def track : TimelineVisualLayer → TrackId
  | .video layer => layer.source.track
  | .title track _ _ _ _ | .solid track _ _ _ _ | .adjustment track _ _ _ => track

end TimelineVisualLayer

/-- `evaluated_effects`. -/
def evaluatedEffects (clip : Clip) (projectAt : TimeCode) : List Effect :=
  let localAt := (checkedSub projectAt clip.timelineStart).getD 0
  (clip.effects.filter fun effect => effect.isEnabledAt localAt).map fun effect =>
    effect.evaluatedAt localAt

/-- `active_clip_on_track`, over the clips of the track. -/
def activeClip (document : Document) (projectAt : TimeCode) : List Clip → Except MediaError (Option Clip)
  | [] => .ok none
  | clip :: clips => if projectAt < clip.timelineStart then .ok none else do
      let duration ← (document.clipDuration clip).mapError .operation
      let timelineEnd ← okOr .timelineOverflow (checkedAdd clip.timelineStart duration)
      if projectAt < timelineEnd ∧ clip.isEnabledAt ((checkedSub projectAt clip.timelineStart).getD 0) then
        .ok (some clip)
      else activeClip document projectAt clips

/-- The source frame of `media_source_for_clip`, before it is clamped. -/
def sourcePosition (document : Document) (clip : Clip) (effectiveFps : Rational)
    (projectAt : TimeCode) : Except MediaError TimeCode := do
  let projectOffset ← okOr .timelineUnderflow (checkedSub projectAt clip.timelineStart)
  let sourceOffset ← (mapFramesWithRounding projectOffset document.fps effectiveFps
    .floor).mapError .mapping
  okOr .sourceOverflow (checkedAdd clip.sourceRange.start sourceOffset)

/-- `media_source_for_clip`. -/
def mediaSourceForClip (document : Document) (track : TrackId) (clip : Clip)
    (projectAt : TimeCode) : Except MediaError TimelineSource := do
  let asset ← okOr (.missingAsset clip.id clip.asset) (document.asset clip.asset)
  let effectiveFps ← (clipEffectiveFps asset.fps clip).mapError .mapping
  let duration ← (mapSourceRangeToProject clip.sourceRange.start clip.sourceRange.stop effectiveFps
    document.fps).mapError .mapping
  let timelineEnd ← okOr .timelineOverflow (checkedAdd clip.timelineStart duration)
  let sourceAt ← sourcePosition document clip effectiveFps projectAt
  let last := saturatingSub clip.sourceRange.stop 1
  .ok { track := track
        clip := clip.id
        asset := clip.asset
        sourceAt := if sourceAt ≤ last then sourceAt else last
        sourceEnd := clip.sourceRange.stop
        timelineEnd := timelineEnd }

/-- `source_on_track`. -/
def sourceOnTrack (document : Document) (track : Track) (projectAt : TimeCode) :
    Except MediaError (Option TimelineSource) := do
  match ← activeClip document projectAt track.clips with
  | none => .ok none
  | some clip =>
    if !clip.content.isMedia then .ok none
    else (mediaSourceForClip document track.id clip projectAt).map some

/-- The video tracks, from the bottom to the top. -/
def videoTracks (document : Document) : List Track :=
  document.tracks.filter fun track => track.kind = .video

/-- `timeline_source_at`. -/
def timelineSourceAt (document : Document) (projectAt : TimeCode) : Except MediaError (Option TimelineSource) :=
  if projectAt.toInt < 0 then .ok none
  else match (videoTracks document).head? with
    | none => .ok none
    | some track => sourceOnTrack document track projectAt

/-- The layer of one track in `video_layers_at`. -/
def videoLayerOnTrack (document : Document) (projectAt : TimeCode) (track : Track) :
    Except MediaError (Option TimelineVideoLayer) := do
  match ← sourceOnTrack document track projectAt with
  | none => .ok none
  | some source =>
    let clip ← okOr .clipDisappeared (track.clips.find? fun clip => clip.id = source.clip)
    .ok (some
      { source
        effects := evaluatedEffects clip projectAt
        blendMode := clip.blendMode })

/-- Collect what the tracks of a list give, in order. -/
def collect {α : Type} (layerOn : Track → Except MediaError (Option α)) : List Track → Except MediaError (List α)
  | [] => .ok []
  | track :: tracks => do
    let layer ← layerOn track
    let layers ← collect layerOn tracks
    .ok (layer.toList ++ layers)

/-- `video_layers_at`. -/
def videoLayersAt (document : Document) (projectAt : TimeCode) : Except MediaError (List TimelineVideoLayer) :=
  if projectAt.toInt < 0 then .ok []
  else collect (videoLayerOnTrack document projectAt) (videoTracks document)

/-- The layer of an active clip in `visual_layers_at`. -/
def visualLayerOf (document : Document) (track : TrackId) (clip : Clip) (projectAt : TimeCode) :
    Except MediaError TimelineVisualLayer :=
  let effects := evaluatedEffects clip projectAt
  match clip.content with
  | .media => do
    let source ← mediaSourceForClip document track clip projectAt
    .ok (.video { source, effects, blendMode := clip.blendMode })
  | .title title => do
    -- `title_alpha` fails only where the clip has no duration
    let _ ← (document.clipDuration clip).mapError .operation
    .ok (.title track clip.id title effects clip.blendMode)
  | .freeze sourceFrame => do
    let duration ← (document.clipDuration clip).mapError .operation
    let timelineEnd ← okOr .timelineOverflow (checkedAdd clip.timelineStart duration)
    let sourceEnd ← okOr .sourceOverflow (checkedAdd sourceFrame 1)
    .ok (.video
      { source :=
          { track := track
            clip := clip.id
            asset := clip.asset
            sourceAt := sourceFrame
            sourceEnd := sourceEnd
            timelineEnd := timelineEnd }
        effects
        blendMode := clip.blendMode })
  | .solid color => .ok (.solid track clip.id color effects clip.blendMode)
  | .adjustment => .ok (.adjustment track clip.id effects clip.blendMode)

/-- The layer of one track in `visual_layers_at`. -/
def visualLayerOnTrack (document : Document) (projectAt : TimeCode) (track : Track) :
    Except MediaError (Option TimelineVisualLayer) := do
  match ← activeClip document projectAt track.clips with
  | none => .ok none
  | some clip => (visualLayerOf document track.id clip projectAt).map some

/-- `visual_layers_at`. -/
def visualLayersAt (document : Document) (projectAt : TimeCode) : Except MediaError (List TimelineVisualLayer) :=
  if projectAt.toInt < 0 then .ok []
  else collect (visualLayerOnTrack document projectAt) (videoTracks document)

/-! ## The active clip -/

/-- The clip's half-open interval contains the frame. -/
def Covers (document : Document) (clip : Clip) (projectAt : TimeCode) : Prop :=
  clip.timelineStart ≤ projectAt ∧ ∃ stop, document.clipEnd clip = .ok stop ∧ projectAt < stop

/-- The clip's interval contains the frame, and the clip is enabled there. -/
def ActiveAt (document : Document) (clip : Clip) (projectAt : TimeCode) : Prop :=
  Covers document clip projectAt ∧ clip.isEnabledAt ((checkedSub projectAt clip.timelineStart).getD 0)

variable {document : Document} {projectAt : TimeCode}

theorem activeClip_cons {clip : Clip} {clips : List Clip} {stop : TimeCode} (hstop : document.clipEnd clip = .ok stop) :
    activeClip document projectAt (clip :: clips) = if projectAt < clip.timelineStart then .ok none
        else if projectAt < stop ∧ clip.isEnabledAt ((checkedSub projectAt clip.timelineStart).getD 0) then
          .ok (some clip)
        else activeClip document projectAt clips := by
  rw [clipEnd, bind_eq_ok] at hstop
  obtain ⟨duration, hduration, hadd⟩ := hstop
  rw [okOr_eq_ok] at hadd
  simp [activeClip, hduration, Except.mapError, hadd]

/-- On a track whose clips are apart, the active clip is the one that is active at the frame. -/
theorem activeClip_spec {track : Track} {clips : List Clip} (hapart : Apart document clips)
    (hfits : ∀ clip ∈ clips, ClipFits document track clip)
    (hstops : ∀ clip ∈ clips, ∃ stop, document.clipEnd clip = .ok stop) :
    ∃ active, activeClip document projectAt clips = .ok active ∧
      (∀ clip ∈ active, clip ∈ clips ∧ ActiveAt document clip projectAt) ∧
      ∀ clip ∈ clips, ActiveAt document clip projectAt → active = some clip := by
  induction clips with
  | nil => exact ⟨none, rfl, (fun _ h => by cases h), forall_mem_nil _⟩
  | cons clip clips ih =>
    obtain ⟨hafter, hapart⟩ := pairwise_cons.mp hapart
    obtain ⟨hclip, hfits⟩ := forall_mem_cons.mp hfits
    obtain ⟨⟨stop, hstop⟩, hstops⟩ := forall_mem_cons.mp hstops
    have hlt := hclip.start_lt hstop
    -- the clips after this one start at its end or later
    have hlater : ∀ next ∈ clips, ActiveAt document next projectAt → stop ≤ projectAt :=
      fun next hnext hactive => Int64.le_trans (hafter next hnext stop hstop) hactive.1.1
    rw [activeClip_cons hstop]
    by_cases hbefore : projectAt < clip.timelineStart
    · rw [if_pos hbefore]
      refine ⟨none, rfl, (fun _ h => by cases h), forall_mem_cons.mpr ⟨?_, ?_⟩⟩
      · exact fun hactive => absurd hactive.1.1 (Int64.not_le.mpr hbefore)
      · intro next hnext hactive
        have hle := hlater next hnext hactive
        exact absurd (Int64.lt_of_lt_of_le hlt hle) (Int64.not_lt.mpr (Int64.le_of_lt hbefore))
    · rw [if_neg hbefore]
      by_cases hhere : projectAt < stop ∧ clip.isEnabledAt ((checkedSub projectAt clip.timelineStart).getD 0)
      · rw [if_pos hhere]
        have hcovers : Covers document clip projectAt := ⟨Int64.not_lt.mp hbefore, stop, hstop, hhere.1⟩
        refine ⟨some clip, rfl, ?_, forall_mem_cons.mpr ⟨fun _ => rfl, ?_⟩⟩
        · rintro _ ⟨⟩
          exact ⟨mem_cons_self, hcovers, hhere.2⟩
        · intro next hnext hactive
          exact absurd hhere.1 (Int64.not_lt.mpr (hlater next hnext hactive))
      · rw [if_neg hhere]
        obtain ⟨active, heq, hsound, hcomplete⟩ := ih hapart hfits hstops
        refine ⟨active, heq, ?_, forall_mem_cons.mpr ⟨?_, hcomplete⟩⟩
        · intro found hfound
          obtain ⟨hmem, hactive⟩ := hsound found hfound
          exact ⟨mem_cons_of_mem _ hmem, hactive⟩
        · rintro ⟨⟨-, stop', hstop', hbound⟩, henabled⟩
          rw [hstop, Except.ok.injEq] at hstop'
          exact absurd ⟨hstop' ▸ hbound, henabled⟩ hhere

/-! ## The source frame -/

/-- A media clip with its asset, the rate at which it consumes the asset, and its end. -/
structure Consumes (document : Document) (clip : Clip) (asset : MediaAsset)
    (effectiveFps : Rational) (stop : TimeCode) : Prop where
  found : document.asset clip.asset = some asset
  rate : clipEffectiveFps asset.fps clip = .ok effectiveFps
  stop : ∃ duration, mapSourceRangeToProject clip.sourceRange.start clip.sourceRange.stop
    effectiveFps document.fps = .ok duration ∧ checkedAdd clip.timelineStart duration = some stop

/-- The source frame before it is clamped: the start of the range, and the offset into the clip at
the effective rate, rounded down. -/
def shownFrame (document : Document) (clip : Clip) (effectiveFps : Rational) (projectAt : TimeCode) : ℤ :=
  clip.sourceRange.start.toInt + (projectAt.toInt - clip.timelineStart.toInt)
    * (effectiveFps.numerator.toNat * document.fps.denominator.toNat)
    / (document.fps.numerator.toNat * effectiveFps.denominator.toNat)

theorem consumes {clip : Clip} {stop : TimeCode} (hmedia : clip.content = .media)
    (hstop : document.clipEnd clip = .ok stop) :
    ∃ asset effectiveFps, Consumes document clip asset effectiveFps stop := by
  rw [clipEnd, bind_eq_ok] at hstop
  obtain ⟨duration, hduration, hadd⟩ := hstop
  have hspan : ¬ clip.content.isSpan := by simp [ClipContent.isSpan, ClipContent.isMedia, hmedia]
  rw [clipDuration, if_neg hspan, bind_eq_ok] at hduration
  obtain ⟨asset, hasset, hduration⟩ := hduration
  obtain ⟨effectiveFps, hrate, hduration⟩ := bind_eq_ok.mp hduration
  rw [okOr_eq_ok] at hasset hadd
  rw [mapError_eq_ok] at hrate hduration
  exact ⟨asset, effectiveFps, hasset, hrate, duration, hduration, hadd⟩

section Consumes

variable {clip : Clip} {asset : MediaAsset} {effectiveFps : Rational} {stop : TimeCode}

/-- The offset into the clip, as the grid of the source counts it. -/
theorem shownFrame_eq (hle : clip.timelineStart ≤ projectAt) :
    shownFrame document clip effectiveFps projectAt = clip.sourceRange.start.toInt
      + floor (document.fps.scale effectiveFps) (effectiveFps.scale document.fps)
          (projectAt.toInt - clip.timelineStart.toInt).toNat := by
  rw [le_iff_toInt_le] at hle
  rw [shownFrame, floor, Int.natCast_ediv, Int.natCast_mul, Int.toNat_of_nonneg (by omega),
    Rational.scale, Rational.scale, Int.natCast_mul, Int.natCast_mul]

/-- Inside the clip the source frame is inside the source range: the range's two boundaries are
mapped to the nearest frame, and an offset between them is mapped down. -/
theorem Consumes.shownFrame_lt (h : Consumes document clip asset effectiveFps stop)
    (hle : clip.timelineStart ≤ projectAt) (hlt : projectAt < stop) :
    shownFrame document clip effectiveFps projectAt < clip.sourceRange.stop.toInt := by
  obtain ⟨duration, hrange, hstop⟩ := h.stop
  obtain ⟨hs, hp, hstart, hend, hduration⟩ := mapSourceRange_ok hrange
  rw [checkedAdd_eq_some] at hstop
  rw [shownFrame_eq hle]
  rw [le_iff_toInt_le] at hle
  rw [lt_iff_toInt_lt] at hlt
  have hoffset : (projectAt.toInt - clip.timelineStart.toInt).toNat
      < nearest (effectiveFps.scale document.fps) (document.fps.scale effectiveFps) clip.sourceRange.stop.toInt.toNat
        - nearest (effectiveFps.scale document.fps) (document.fps.scale effectiveFps)
          clip.sourceRange.start.toInt.toNat := by
    omega
  have hinside := floor_lt_of_lt_nearest (hp.scale_pos hs) hoffset
  omega

theorem shownFrame_start : shownFrame document clip effectiveFps clip.timelineStart = clip.sourceRange.start.toInt := by
  rw [shownFrame, Int.sub_self, Int.zero_mul, Int.zero_ediv, Int.add_zero]

theorem shownFrame_mono {later : TimeCode} (hle : clip.timelineStart ≤ projectAt) (hlater : projectAt ≤ later) :
    shownFrame document clip effectiveFps projectAt ≤ shownFrame document clip effectiveFps later := by
  rw [shownFrame_eq hle, shownFrame_eq (Int64.le_trans hle hlater)]
  rw [le_iff_toInt_le] at hlater
  have hmono := floor_mono (a := document.fps.scale effectiveFps)
    (d := effectiveFps.scale document.fps)
    (show (projectAt.toInt - clip.timelineStart.toInt).toNat ≤ (later.toInt - clip.timelineStart.toInt).toNat by omega)
  omega

/-- No operation of the mapping overflows inside the clip. -/
theorem Consumes.sourcePosition_ok (h : Consumes document clip asset effectiveFps stop)
    (hstart : 0 ≤ clip.timelineStart.toInt) (hle : clip.timelineStart ≤ projectAt)
    (hlt : projectAt < stop) :
    ∃ frame, sourcePosition document clip effectiveFps projectAt = .ok frame ∧
      frame.toInt = shownFrame document clip effectiveFps projectAt := by
  have hinside := h.shownFrame_lt hle hlt
  obtain ⟨duration, hrange, -⟩ := h.stop
  obtain ⟨hs, hp, hrangeStart, -, -⟩ := mapSourceRange_ok hrange
  rw [shownFrame_eq hle] at hinside ⊢
  rw [le_iff_toInt_le] at hle
  obtain ⟨offset, hoffset, hoffsetInt⟩ := exists_tryFrom (n := projectAt.toInt
    - clip.timelineStart.toInt) (a := 0) (b := projectAt) (by simp; omega) (by omega)
  have hzero : 0 ≤ offset.toInt := by omega
  rw [← hoffsetInt] at hinside ⊢
  generalize hmapped : floor (document.fps.scale effectiveFps)
    (effectiveFps.scale document.fps) offset.toInt.toNat = mapped at hinside
  obtain ⟨sourceOffset, hsource, hsourceInt⟩ := exists_tryFrom (n := (mapped : ℤ)) (a := 0)
    (b := clip.sourceRange.stop) (by simp) (by omega)
  obtain ⟨frame, hframe, hframeInt⟩ := exists_tryFrom
    (n := clip.sourceRange.start.toInt + sourceOffset.toInt) (a := clip.sourceRange.start)
    (b := clip.sourceRange.stop) (by omega) (by omega)
  refine ⟨frame, ?_, by omega⟩
  rw [sourcePosition, checkedSub, hoffset, okOr_some, ok_bind, mapFrames_eq hp hs hzero,
    FrameRounding.map, hmapped, hsource, okOr_some]
  simp only [Except.mapError, ok_bind]
  rw [checkedAdd, hframe, okOr_some]

/-- A media clip shows its source frame wherever it is: the clamp takes nothing away. -/
theorem Consumes.mediaSource_ok (h : Consumes document clip asset effectiveFps stop)
    (hstart : 0 ≤ clip.timelineStart.toInt) (hle : clip.timelineStart ≤ projectAt)
    (hlt : projectAt < stop) (track : TrackId) :
    ∃ frame, sourcePosition document clip effectiveFps projectAt = .ok frame ∧
      frame.toInt = shownFrame document clip effectiveFps projectAt ∧
      mediaSourceForClip document track clip projectAt = .ok
        { track := track
          clip := clip.id
          asset := clip.asset
          sourceAt := frame
          sourceEnd := clip.sourceRange.stop
          timelineEnd := stop } := by
  obtain ⟨frame, hframe, hframeInt⟩ := h.sourcePosition_ok hstart hle hlt
  have hinside := h.shownFrame_lt hle hlt
  obtain ⟨duration, hrange, hstop⟩ := h.stop
  refine ⟨frame, hframe, hframeInt, ?_⟩
  have hclamp : frame ≤ saturatingSub clip.sourceRange.stop 1 := by
    have hone : (1 : Int64).toInt = 1 := rfl
    have hlast := saturatingSub_eq (a := clip.sourceRange.stop) (b := 1) frame
      clip.sourceRange.stop (by omega) (by omega)
    rw [le_iff_toInt_le]
    omega
  simp [mediaSourceForClip, h.found, h.rate, Except.mapError, hrange, hstop, hframe, if_pos hclamp]

end Consumes

/-! ## The layers of a valid document -/

/-- The active clip of a track of a valid document. -/
theorem activeClip_valid (hfits : document.Fits) {track : Track}
    (htrack : track ∈ document.tracks) (projectAt : TimeCode) :
    ∃ active, activeClip document projectAt track.clips = .ok active ∧
      (∀ clip ∈ active, clip ∈ track.clips ∧ ActiveAt document clip projectAt) ∧
      ∀ clip ∈ track.clips, ActiveAt document clip projectAt → active = some clip := by
  refine activeClip_spec (hfits.apart track htrack) (hfits.clips track htrack) ?_
  intro clip hclip
  obtain ⟨stop, hstop, -⟩ := hfits.stops clip (mem_clips htrack hclip)
  exact ⟨stop, hstop⟩

/-- An active clip has a layer, whatever its content. -/
theorem visualLayerOf_ok (hfits : document.Fits) {track : Track}
    (htrack : track ∈ document.tracks) {clip : Clip} (hclip : clip ∈ track.clips)
    (hactive : ActiveAt document clip projectAt) :
    ∃ layer, visualLayerOf document track.id clip projectAt = .ok layer ∧
      layer.track = track.id ∧ layer.clip = clip.id := by
  have hclipFits := hfits.clips track htrack clip hclip
  obtain ⟨⟨hle, stop, hstop, hlt⟩, -⟩ := hactive
  obtain ⟨duration, hduration, -⟩ := hclipFits.duration
  have hadd := hstop
  rw [clipEnd, hduration, ok_bind, okOr_eq_ok] at hadd
  unfold visualLayerOf
  cases hcontent : clip.content with
  | media =>
    obtain ⟨asset, effectiveFps, hconsumes⟩ := consumes hcontent hstop
    obtain ⟨frame, -, -, hsource⟩ := hconsumes.mediaSource_ok hclipFits.start hle hlt track.id
    simp only [hsource, ok_bind]
    exact ⟨_, rfl, rfl, rfl⟩
  | title title =>
    simp only [hduration, Except.mapError, ok_bind]
    exact ⟨_, rfl, rfl, rfl⟩
  | freeze sourceFrame =>
    obtain ⟨asset, -, -, hframe⟩ := hclipFits.asset (by simp [hcontent, ClipContent.referencesAsset])
    have hbound := lt_iff_toInt_lt.mp (hframe sourceFrame hcontent)
    have hone : (1 : Int64).toInt = 1 := rfl
    obtain ⟨sourceEnd, hend, -⟩ := exists_tryFrom (n := sourceFrame.toInt + (1 : Int64).toInt)
      (a := sourceFrame) (b := asset.duration) (by omega) (by omega)
    simp only [hduration, Except.mapError, ok_bind, hadd, okOr_some,
      show checkedAdd sourceFrame 1 = some sourceEnd from hend]
    exact ⟨_, rfl, rfl, rfl⟩
  | solid color | adjustment => exact ⟨_, rfl, rfl, rfl⟩

/-- The layer of a track is the layer of its active clip. -/
theorem visualLayerOnTrack_ok (hfits : document.Fits) {track : Track}
    (htrack : track ∈ document.tracks) (projectAt : TimeCode) :
    ∃ visual, visualLayerOnTrack document projectAt track = .ok visual ∧ (∀ layer ∈ visual, layer.track = track.id ∧
        ∃ clip ∈ track.clips, layer.clip = clip.id ∧ ActiveAt document clip projectAt) ∧
      ∀ clip ∈ track.clips, ActiveAt document clip projectAt →
        (∃ layer ∈ visual, layer.track = track.id ∧ layer.clip = clip.id) ∧
          ∀ other ∈ track.clips, ActiveAt document other projectAt → other = clip := by
  obtain ⟨active, hactive, hsound, hcomplete⟩ := activeClip_valid hfits htrack projectAt
  rcases active with _ | clip
  · refine ⟨none, ?_, (fun _ h => by cases h), ?_⟩
    · rw [visualLayerOnTrack, hactive, ok_bind]
    · intro clip hclip hhere
      cases hcomplete clip hclip hhere
  · obtain ⟨hclip, hhere⟩ := hsound clip rfl
    obtain ⟨layer, hlayer, htrackId, hclipId⟩ := visualLayerOf_ok hfits htrack hclip hhere
    refine ⟨some layer, ?_, ?_, ?_⟩
    · rw [visualLayerOnTrack, hactive, ok_bind]
      simp [hlayer, Except.map]
    · rintro _ ⟨⟩
      exact ⟨htrackId, clip, hclip, hclipId, hhere⟩
    · intro found hfound hfoundHere
      obtain rfl := Option.some.inj (hcomplete found hfound hfoundHere)
      refine ⟨⟨layer, rfl, htrackId, hclipId⟩, fun other hother hotherHere => ?_⟩
      exact (Option.some.inj (hcomplete other hother hotherHere)).symm

/-- The layer of a media clip, among the layers of any content. -/
def mediaLayer (document : Document) : TimelineVisualLayer → Option TimelineVideoLayer
  | .video layer => if (document.clip layer.source.clip).any fun clip => clip.content.isMedia then some layer else none
  | _ => none

theorem mediaLayer_track {layer : TimelineVisualLayer} :
    ∀ video ∈ mediaLayer document layer, video.source.track = layer.track := by
  intro video hvideo
  cases layer with
  | video layer =>
    rw [mediaLayer, Option.mem_def, Option.ite_none_right_eq_some] at hvideo
    obtain ⟨-, ⟨⟩⟩ := hvideo
    rfl
  | title => cases hvideo
  | solid => cases hvideo
  | adjustment => cases hvideo

/-- On a track, `video_layers_at` resolves the media layer that `visual_layers_at` resolves. -/
theorem videoLayerOnTrack_ok (hfits : document.Fits) {track : Track}
    (htrack : track ∈ document.tracks) (projectAt : TimeCode) :
    ∃ visual, visualLayerOnTrack document projectAt track = .ok visual ∧
      videoLayerOnTrack document projectAt track = .ok (visual.bind (mediaLayer document)) ∧
      sourceOnTrack document track projectAt
        = .ok ((visual.bind (mediaLayer document)).map TimelineVideoLayer.source) := by
  obtain ⟨active, hactive, hsound, -⟩ := activeClip_valid hfits htrack projectAt
  unfold visualLayerOnTrack videoLayerOnTrack sourceOnTrack
  rcases active with _ | clip
  · simp only [hactive, ok_bind]
    exact ⟨none, rfl, rfl, rfl⟩
  obtain ⟨hclip, hhere⟩ := hsound clip rfl
  have hfound := hfits.clip_eq_some (mem_clips htrack hclip)
  obtain ⟨layer, hlayer, -, hclipId⟩ := visualLayerOf_ok hfits htrack hclip hhere
  simp only [hactive, ok_bind, hlayer]
  refine ⟨some layer, rfl, ?_⟩
  unfold visualLayerOf at hlayer
  by_cases hmedia : clip.content = .media
  · have hisMedia : clip.content.isMedia = true := by simp [ClipContent.isMedia, hmedia]
    simp only [hmedia, bind_eq_ok] at hlayer
    obtain ⟨source, hsource, hlayer⟩ := hlayer
    obtain rfl := Except.ok.inj hlayer
    have hfind : (track.clips.find? fun other => other.id = clip.id) = some clip :=
      find?_of_key hclip fun other hother heq =>
        hfits.eq_of_id (mem_clips htrack hother) (mem_clips htrack hclip) heq
    have hlayerClip : source.clip = clip.id := hclipId
    simp [hisMedia, hsource, Except.map, mediaLayer, hlayerClip, hfound, hfind]
  · have hisMedia : clip.content.isMedia = false := by simp [ClipContent.isMedia, hmedia]
    have hnone : mediaLayer document layer = none := by
      cases layer with
      | video layer =>
        have hlayerClip : layer.source.clip = clip.id := hclipId
        simp [mediaLayer, hlayerClip, hfound, hisMedia]
      | title => rfl
      | solid => rfl
      | adjustment => rfl
    simp [hisMedia, hnone]

section Collect

variable {α : Type} {layerOn : Track → Except MediaError (Option α)}

/-- What a track gives when it gives no error. -/
def resolved (layerOn : Track → Except MediaError (Option α)) (track : Track) : Option α :=
  (layerOn track).toOption.join

theorem resolved_eq {track : Track} {layer : Option α} (h : layerOn track = .ok layer) :
    resolved layerOn track = layer := by
  simp [resolved, h, Except.toOption]

variable {tracks : List Track}

theorem collect_ok (h : ∀ track ∈ tracks, ∃ layer, layerOn track = .ok layer) :
    collect layerOn tracks = .ok (tracks.filterMap (resolved layerOn)) := by
  induction tracks with
  | nil => rfl
  | cons track tracks ih =>
    obtain ⟨⟨layer, hlayer⟩, hrest⟩ := forall_mem_cons.mp h
    rw [collect, hlayer, ih hrest, filterMap_cons, resolved_eq hlayer]
    cases layer with
    | none => rfl
    | some layer => rfl

/-- The keys of what the tracks give are in the order of the tracks. -/
theorem map_filterMap_sublist {f : Track → Option α} {key : α → TrackId}
    (h : ∀ track ∈ tracks, ∀ layer ∈ f track, key layer = track.id) :
    ((tracks.filterMap f).map key).Sublist (tracks.map Track.id) := by
  induction tracks with
  | nil => exact .slnil
  | cons track tracks ih =>
    obtain ⟨hhead, htail⟩ := forall_mem_cons.mp h
    rw [filterMap_cons]
    rcases hf : f track with _ | layer
    · exact (ih htail).cons _
    · rw [map_cons, hhead layer hf]
      exact (ih htail).cons_cons _

/-- What a track gives is found under its id, as no other track has it. -/
theorem find?_filterMap_key (key : α → TrackId) {f : Track → Option α} (hnodup : (tracks.map Track.id).Nodup)
    (h : ∀ track ∈ tracks, ∀ layer ∈ f track, key layer = track.id) {track : Track}
    (htrack : track ∈ tracks) :
    (tracks.filterMap f).find? (fun layer => key layer = track.id) = f track := by
  have honly : ∀ layer ∈ tracks.filterMap f, key layer = track.id → f track = some layer := by
    intro layer hlayer hkey
    obtain ⟨other, hother, hf⟩ := mem_filterMap.mp hlayer
    rw [h other hother layer hf] at hkey
    rw [← inj_on_of_nodup_map hnodup hother htrack hkey, hf]
  rcases hf : f track with _ | layer
  · rw [find?_eq_none]
    intro layer hlayer hkey
    rw [hf] at honly
    cases honly layer hlayer (of_decide_eq_true hkey)
  · have hkey := h track htrack layer hf
    rw [← hkey]
    apply find?_of_key (mem_filterMap.mpr ⟨track, htrack, hf⟩)
    intro other hother heq
    rw [honly other hother (heq.trans hkey), Option.some.injEq] at hf
    exact hf

end Collect

/-- A media clip on a valid document shows its own source frames, in order, from the first on. -/
theorem media_shows (hfits : document.Fits) {track : Track} (htrack : track ∈ document.tracks)
    {clip : Clip} (hclip : clip ∈ track.clips) (hmedia : clip.content = .media) :
    ∃ asset effectiveFps stop, Consumes document clip asset effectiveFps stop ∧ document.clipEnd clip = .ok stop ∧
      ∀ at_, clip.timelineStart ≤ at_ → at_ < stop →
        ∃ frame, sourcePosition document clip effectiveFps at_ = .ok frame ∧
          frame.toInt = shownFrame document clip effectiveFps at_ ∧
          clip.sourceRange.start ≤ frame ∧ frame < clip.sourceRange.stop ∧
          (at_ = clip.timelineStart → frame = clip.sourceRange.start) ∧
          (∀ later frame', at_ ≤ later → later < stop →
            sourcePosition document clip effectiveFps later = .ok frame' → frame ≤ frame') ∧
          mediaSourceForClip document track.id clip at_ = .ok
            { track := track.id
              clip := clip.id
              asset := clip.asset
              sourceAt := frame
              sourceEnd := clip.sourceRange.stop
              timelineEnd := stop } := by
  have hstart := (hfits.clips track htrack clip hclip).start
  obtain ⟨stop, hstop, -⟩ := hfits.stops clip (mem_clips htrack hclip)
  obtain ⟨asset, effectiveFps, hconsumes⟩ := consumes hmedia hstop
  refine ⟨asset, effectiveFps, stop, hconsumes, hstop, ?_⟩
  intro at_ hle hlt
  obtain ⟨frame, hframe, hframeInt, hsource⟩ := hconsumes.mediaSource_ok hstart hle hlt track.id
  have hinside := hconsumes.shownFrame_lt hle hlt
  refine ⟨frame, hframe, hframeInt, ?_, ?_, ?_, ?_, hsource⟩
  · rw [le_iff_toInt_le, hframeInt, shownFrame_eq hle]
    omega
  · rw [lt_iff_toInt_lt, hframeInt]
    exact hinside
  · rintro rfl
    rw [← toInt_inj, hframeInt, shownFrame_start]
  · intro later frame' hlater hlaterLt hframe'
    obtain ⟨found, hfound, hfoundInt⟩ := hconsumes.sourcePosition_ok hstart (Int64.le_trans hle hlater) hlaterLt
    rw [hfound, Except.ok.injEq] at hframe'
    rw [← hframe', le_iff_toInt_le, hframeInt, hfoundInt]
    exact shownFrame_mono hle hlater

theorem mem_videoTracks {track : Track} :
    track ∈ videoTracks document ↔ track ∈ document.tracks ∧ track.kind = .video := by
  simp [videoTracks]

theorem videoTracks_nodup (hfits : document.Fits) : ((videoTracks document).map Track.id).Nodup :=
  hfits.trackIds.sublist (filter_sublist.map Track.id)

/-- The layers are what the video tracks resolve to. -/
theorem visualLayersAt_ok (hfits : document.Fits) (hat : 0 ≤ projectAt.toInt) :
    visualLayersAt document projectAt = .ok ((videoTracks document).filterMap
      (resolved (visualLayerOnTrack document projectAt))) := by
  rw [visualLayersAt, if_neg (by omega)]
  refine collect_ok fun track htrack => ?_
  obtain ⟨visual, hok, -⟩ := visualLayerOnTrack_ok hfits (mem_videoTracks.mp htrack).1 projectAt
  exact ⟨visual, hok⟩

/-- The layer that a track resolves to is its own, of an active clip. -/
theorem resolved_layer (hfits : document.Fits) {track : Track} (htrack : track ∈ videoTracks document)
    {layer : TimelineVisualLayer}
    (hlayer : layer ∈ resolved (visualLayerOnTrack document projectAt) track) :
    layer.track = track.id ∧ ∃ clip ∈ track.clips, layer.clip = clip.id ∧ ActiveAt document clip projectAt := by
  obtain ⟨visual, hok, hsound, -⟩ := visualLayerOnTrack_ok hfits (mem_videoTracks.mp htrack).1 projectAt
  rw [resolved_eq hok] at hlayer
  exact hsound layer hlayer

/-- Frame resolution on a valid document. Every project frame has layers, at most one on each video
track, in track order: the layer of the only clip of the track that is active at the frame. A media
clip shows at each frame of its interval the frame of its source range at the floored offset; the
clamp is inert. `video_layers_at` gives the layers of media clips, and `timeline_source_at` the source
of the first video track's. -/
theorem visualLayersAt_resolves {checks : Checks} (hvalid : validateDocument checks document = .ok ())
    (hat : 0 ≤ projectAt.toInt) :
    ∃ layers, visualLayersAt document projectAt = .ok layers ∧
      (layers.map TimelineVisualLayer.track).Sublist ((videoTracks document).map Track.id) ∧
      ((videoTracks document).map Track.id).Nodup ∧
      (∀ layer ∈ layers, ∃ track ∈ videoTracks document, layer.track = track.id ∧
        ∃ clip ∈ track.clips, layer.clip = clip.id ∧ ActiveAt document clip projectAt) ∧
      (∀ track ∈ videoTracks document, ∀ clip ∈ track.clips, ActiveAt document clip projectAt →
        (∃ layer ∈ layers, layer.track = track.id ∧ layer.clip = clip.id) ∧
          ∀ other ∈ track.clips, ActiveAt document other projectAt → other = clip) ∧
      (∀ track ∈ document.tracks, ∀ clip ∈ track.clips, clip.content = .media →
        ∃ asset effectiveFps stop, Consumes document clip asset effectiveFps stop ∧ document.clipEnd clip = .ok stop ∧
          ∀ at_, clip.timelineStart ≤ at_ → at_ < stop →
            ∃ frame, sourcePosition document clip effectiveFps at_ = .ok frame ∧
              frame.toInt = shownFrame document clip effectiveFps at_ ∧
              clip.sourceRange.start ≤ frame ∧ frame < clip.sourceRange.stop ∧
              (at_ = clip.timelineStart → frame = clip.sourceRange.start) ∧
              (∀ later frame', at_ ≤ later → later < stop →
                sourcePosition document clip effectiveFps later = .ok frame' → frame ≤ frame') ∧
              mediaSourceForClip document track.id clip at_ = .ok
                { track := track.id
                  clip := clip.id
                  asset := clip.asset
                  sourceAt := frame
                  sourceEnd := clip.sourceRange.stop
                  timelineEnd := stop }) ∧
      videoLayersAt document projectAt = .ok (layers.filterMap (mediaLayer document)) ∧
      timelineSourceAt document projectAt = .ok ((videoTracks document).head?.bind fun track =>
        ((layers.filterMap (mediaLayer document)).find? fun layer =>
          layer.source.track = track.id).map TimelineVideoLayer.source) := by
  have hfits := validateDocument_ok hvalid
  have hvideo : ∀ track ∈ videoTracks document, track ∈ document.tracks :=
    fun track htrack => (mem_videoTracks.mp htrack).1
  have hnodup := videoTracks_nodup hfits
  have hmediaLayers : ∀ track ∈ videoTracks document, resolved (videoLayerOnTrack document projectAt) track
        = (resolved (visualLayerOnTrack document projectAt) track).bind (mediaLayer document) := by
    intro track htrack
    obtain ⟨visual, hok, hvideoOk, -⟩ := videoLayerOnTrack_ok hfits (hvideo track htrack) projectAt
    rw [resolved_eq hvideoOk, resolved_eq hok]
  refine ⟨(videoTracks document).filterMap (resolved (visualLayerOnTrack document projectAt)),
    visualLayersAt_ok hfits hat, ?_, hnodup, ?_, ?_, ?_, ?_, ?_⟩
  · exact map_filterMap_sublist fun track htrack layer hlayer =>
      (resolved_layer hfits htrack hlayer).1
  · intro layer hlayer
    obtain ⟨track, htrack, hresolved⟩ := mem_filterMap.mp hlayer
    exact ⟨track, htrack, resolved_layer hfits htrack hresolved⟩
  · intro track htrack clip hclip hhere
    obtain ⟨visual, hok, -, hcomplete⟩ := visualLayerOnTrack_ok hfits (hvideo track htrack) projectAt
    obtain ⟨⟨layer, hlayer, hids⟩, honly⟩ := hcomplete clip hclip hhere
    refine ⟨⟨layer, mem_filterMap.mpr ⟨track, htrack, ?_⟩, hids⟩, honly⟩
    rw [resolved_eq hok]
    exact hlayer
  · intro track htrack clip hclip hmedia
    exact media_shows hfits htrack hclip hmedia
  · rw [videoLayersAt, if_neg (by omega), filterMap_filterMap, collect_ok fun track htrack => ?_]
    · exact congrArg Except.ok (filterMap_congr hmediaLayers)
    · obtain ⟨visual, -, hvideoOk, -⟩ := videoLayerOnTrack_ok hfits (hvideo track htrack) projectAt
      exact ⟨_, hvideoOk⟩
  · rw [timelineSourceAt, if_neg (by omega)]
    rcases hhead : (videoTracks document).head? with _ | track
    · rfl
    · have htrack := mem_of_mem_head? hhead
      obtain ⟨visual, hok, -, hsource⟩ := videoLayerOnTrack_ok hfits (hvideo track htrack) projectAt
      have hfirst := find?_filterMap_key (fun layer => layer.source.track) hnodup
        (f := fun track => (resolved (visualLayerOnTrack document projectAt) track).bind
          (mediaLayer document)) ?_ htrack
      · rw [resolved_eq hok] at hfirst
        rw [filterMap_filterMap, Option.bind_some, hfirst]
        exact hsource
      · intro track htrack layer hlayer
        obtain ⟨found, hfound, hmedia⟩ := Option.bind_eq_some_iff.mp hlayer
        rw [mediaLayer_track layer hmedia]
        exact (resolved_layer hfits htrack hfound).1

/-- Checks that refuse nothing. -/
def demoChecks : Checks where
  project _ := .ok ()
  asset _ := .ok ()
  pool _ := .ok ()
  title _ _ _ := .ok ()
  clip _ _ _ := .ok ()
  markers _ := .ok ()
  mix _ := .ok ()

def demoColor : ColorDescription where
  primaries := .named .bt709
  transfer := .named .bt709
  matrix := .named .bt709
  range := .named .limited
  whitePoint := .named .d65
  bitDepth := .integer 8
  confidenceBasisPoints := 10000
  provenance := .named .streamMetadata

def demoAsset : MediaAsset where
  id := 1
  path := "a.mp4"
  name := "a"
  duration := 90
  fps := { numerator := 24, denominator := 1 }
  kind := .video
  resolution := some (1920, 1080)
  sourceFingerprint := { contentSha256 := none, byteLen := none }
  colorDescription := demoColor
  assumedFrom := none

def demoClip : Clip where
  id := 1
  asset := 1
  sourceRange := { start := 10, stop := 34 }
  content := .media
  timelineStart := 5
  effects := []
  transitionIn := none
  link := none
  audioGainTenthDb := 0
  audioFadeInFrames := 0
  audioFadeOutFrames := 0
  audioGainCurve := none
  speedPercent := 100
  enabled := true
  enabledCurve := none
  blendMode := .normal

/-- One second of a source at 24 frames a second, from frame 5 of a project at 30. -/
def demoDocument : Document where
  tracks := [{ id := 1, kind := .video, syncLock := false, clips := [demoClip] }]
  mediaPool := [demoAsset]
  markers := []
  catalog := { bins := [], stringOuts := [], syncGroups := [] }
  audioMix :=
    { buses := []
      tracks := []
      master := { gainTenthDb := 0, gainCurve := none, effects := [] }
      panLaw := .balance }
  colorContext :=
    { pipelineState := .named .legacy
      working := demoColor
      monitoring := demoColor
      delivery := demoColor }
  lutAssets := []
  investigator := none
  fps := { numerator := 30, denominator := 1 }
  resolution := (1920, 1080)
  duration := 35

theorem visualLayersAt_resolves_demo : ∃ layers, visualLayersAt demoDocument 7 = .ok layers ∧
    (layers.map TimelineVisualLayer.track).Sublist ((videoTracks demoDocument).map Track.id) := by
  have hvalid : validateDocument demoChecks demoDocument = .ok () := by decide
  have hat : 0 ≤ (7 : TimeCode).toInt := by decide
  obtain ⟨layers, hlayers, htracks, -⟩ := visualLayersAt_resolves hvalid hat
  exact ⟨layers, hlayers, htracks⟩

end Kinewright.Timeline
