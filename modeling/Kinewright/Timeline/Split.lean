import Kinewright.Model.Split
import Kinewright.Timeline.Layers

/-!
# What a split clip shows

A split replaces a clip by two parts, the second of which restarts in the source at a boundary that
was searched so that the durations match. The picture of the first part is the same; the second part
is at most one rounded step of the source away from it.
-/

namespace Kinewright.Timeline

open Fallible Model Int64 List Except

variable {document : Document} {projectAt : TimeCode}

/-- The layer that is resolved on a track. -/
def layerOn (layers : List TimelineVisualLayer) (track : TrackId) : Option TimelineVisualLayer :=
  layers.find? fun layer => layer.track = track

/-- Two rates of the same frames in a second. -/
def SameRate (rate other : Rational) : Prop := rate.scale other = other.scale rate

/-- The clip of a track that covers a frame is the only one. -/
theorem covers_unique (hfits : document.Fits) {track : Track} (htrack : track ∈ document.tracks)
    {clip other : Clip} (hclip : clip ∈ track.clips) (hother : other ∈ track.clips)
    (hcovers : Covers document clip projectAt) (hcovers' : Covers document other projectAt) :
    clip = other := by
  have hpairs : track.clips.Pairwise fun clip next =>
      ¬ (Covers document clip projectAt ∧ Covers document next projectAt) := by
    refine (hfits.apart track htrack).imp ?_
    rintro clip next hapart ⟨⟨-, stop, hstop, hlt⟩, hle, -⟩
    exact absurd (Int64.lt_of_lt_of_le hlt (hapart stop hstop)) (Int64.not_lt.mpr hle)
  have : Std.Symm fun clip next : Clip =>
      ¬ (Covers document clip projectAt ∧ Covers document next projectAt) :=
    ⟨fun _ _ hnot hboth => hnot hboth.symm⟩
  by_contra hne
  exact hpairs.forall hclip hother hne ⟨hcovers, hcovers'⟩

/-- The layer of a track is the layer of the clip that covers the frame, if the clip is enabled there
and the track is a video track. -/
theorem layerOn_covering (hfits : document.Fits) {track : Track} (htrack : track ∈ document.tracks)
    {clip : Clip} (hclip : clip ∈ track.clips) (hcovers : Covers document clip projectAt) :
    ∃ layers, visualLayersAt document projectAt = .ok layers ∧ (track.kind = .video →
        clip.isEnabledAt ((checkedSub projectAt clip.timelineStart).getD 0) →
          ∃ layer, visualLayerOf document track.id clip projectAt = .ok layer ∧ layerOn layers track.id = some layer) ∧
      (¬ (track.kind = .video ∧ clip.isEnabledAt ((checkedSub projectAt clip.timelineStart).getD 0)) →
        layerOn layers track.id = none) := by
  have hstart := (hfits.clips track htrack clip hclip).start
  have hle := le_iff_toInt_le.mp hcovers.1
  have hlayers : visualLayersAt document projectAt = .ok _ := visualLayersAt_ok hfits (by omega)
  refine ⟨_, hlayers, ?_, ?_⟩
  · intro hvideo henabled
    obtain ⟨active, hactive, -, hcomplete⟩ := activeClip_valid hfits htrack projectAt
    obtain rfl := hcomplete clip hclip ⟨hcovers, henabled⟩
    obtain ⟨layer, hlayer, -⟩ := visualLayerOf_ok hfits htrack hclip ⟨hcovers, henabled⟩
    refine ⟨layer, hlayer, ?_⟩
    rw [layerOn, find?_filterMap_key _ (videoTracks_nodup hfits) _ (mem_videoTracks.mpr ⟨htrack, hvideo⟩)]
    · apply resolved_eq
      rw [visualLayerOnTrack, hactive, ok_bind]
      simp [hlayer, Except.map]
    · intro other hother found hfound
      exact (resolved_layer hfits hother hfound).1
  · intro hnot
    rw [layerOn, find?_eq_none]
    intro layer hlayer hid
    obtain ⟨other, hother, hresolved⟩ := mem_filterMap.mp hlayer
    obtain ⟨htrackId, found, hfound, -, hactive⟩ := resolved_layer hfits hother hresolved
    obtain ⟨hotherMem, hkind⟩ := mem_videoTracks.mp hother
    have heq : other = track := by
      apply inj_on_of_nodup_map hfits.trackIds hotherMem htrack
      rw [← htrackId]
      exact of_decide_eq_true hid
    subst heq
    obtain rfl := covers_unique hfits htrack hclip hfound hcovers hactive.1
    exact hnot ⟨hkind, hactive.2⟩

/-! ## The layer of a media clip -/

section Consumes

variable {clip : Clip} {asset : MediaAsset} {effectiveFps : Rational} {stop : TimeCode}

/-- The layer of a media clip, on whatever track, with the source frame that the clip shows. -/
structure ShowsMedia (document : Document) (clip : Clip) (effectiveFps : Rational)
    (projectAt : TimeCode) (layer : TimelineVideoLayer) : Prop where
  media : mediaLayer document (.video layer) = some layer
  asset : layer.source.asset = clip.asset
  sourceAt : layer.source.sourceAt.toInt = shownFrame document clip effectiveFps projectAt

theorem Consumes.layerOn (h : Consumes document clip asset effectiveFps stop)
    (hfits : document.Fits) {track : Track} (htrack : track ∈ document.tracks)
    (hclip : clip ∈ track.clips) (hmedia : clip.content = .media)
    (hstop : document.clipEnd clip = .ok stop) (hle : clip.timelineStart ≤ projectAt)
    (hlt : projectAt < stop) :
    ∃ layers, visualLayersAt document projectAt = .ok layers ∧ (track.kind = .video →
        clip.isEnabledAt ((checkedSub projectAt clip.timelineStart).getD 0) →
          ∃ layer, layerOn layers track.id = some (.video layer) ∧
            ShowsMedia document clip effectiveFps projectAt layer) ∧
      (¬ (track.kind = .video ∧ clip.isEnabledAt ((checkedSub projectAt clip.timelineStart).getD 0)) →
        layerOn layers track.id = none) := by
  have hstart := (hfits.clips track htrack clip hclip).start
  obtain ⟨layers, hlayers, hshown, hhidden⟩ := layerOn_covering hfits htrack hclip ⟨hle, stop, hstop, hlt⟩
  refine ⟨layers, hlayers, ?_, hhidden⟩
  intro hvideo henabled
  obtain ⟨layer, hlayer, hfound⟩ := hshown hvideo henabled
  obtain ⟨frame, -, hframe, hsource⟩ := h.mediaSource_ok hstart hle hlt track.id
  simp only [visualLayerOf, hmedia, hsource, ok_bind, ok.injEq] at hlayer
  subst hlayer
  refine ⟨_, hfound, ?_, rfl, hframe⟩
  simp [mediaLayer, hfits.clip_eq_some (mem_clips htrack hclip), ClipContent.isMedia, hmedia]

end Consumes

/-! ## The parts -/

section Part

variable {after : Document} {original part : Clip} {start : TimeCode} {source : FrameRange}
  {delta : TimeCode}

/-- A part is enabled where the clip is: its curve moved with its place. -/
theorem part_isEnabledAt (hpart : original.Part part start source delta)
    (hcurve : ∀ curve ∈ part.enabledCurve, curve.validateOrdered = .ok ())
    (hstart : 0 ≤ original.timelineStart.toInt)
    (hmoved : start.toInt = original.timelineStart.toInt + delta.toInt) (hdelta : 0 ≤ delta.toInt)
    (hle : start ≤ projectAt) :
    part.isEnabledAt ((checkedSub projectAt part.timelineStart).getD 0)
      = original.isEnabledAt ((checkedSub projectAt original.timelineStart).getD 0) := by
  rw [le_iff_toInt_le] at hle
  obtain ⟨local', hlocal', hlocalInt'⟩ := exists_tryFrom
    (n := projectAt.toInt - part.timelineStart.toInt) (a := 0) (b := projectAt)
    (by rw [hpart.timelineStart]; simp; omega) (by rw [hpart.timelineStart]; omega)
  obtain ⟨localAt, hlocal, hlocalInt⟩ := exists_tryFrom
    (n := projectAt.toInt - original.timelineStart.toInt) (a := 0) (b := projectAt)
    (by simp; omega) (by omega)
  rw [checkedSub, hlocal', checkedSub, hlocal, Option.getD_some, Option.getD_some,
    Clip.isEnabledAt, Clip.isEnabledAt, hpart.enabled]
  rw [hpart.enabledCurve] at hcurve ⊢
  generalize original.enabledCurve = enabledCurve at hcurve ⊢
  rcases enabledCurve with _ | curve
  · rfl
  · have hvalid := hcurve (rebaseClipCurveKeepOutside curve delta) (by simp)
    apply AutomationCurve.enables_keepOutside hvalid
    rw [hpart.timelineStart] at hlocalInt'
    omega

variable {effectiveFps : Rational}

theorem part_consumes (hpart : original.Part part start source delta)
    (hpool : after.mediaPool = document.mediaPool) {asset : MediaAsset}
    (hasset : document.asset original.asset = some asset)
    (hrate : clipEffectiveFps asset.fps original = .ok effectiveFps) {stop : TimeCode}
    (hmedia : original.content = .media) (hstop : after.clipEnd part = .ok stop) :
    Consumes after part asset effectiveFps stop := by
  obtain ⟨asset', effectiveFps', hconsumes⟩ := consumes (hpart.content.trans hmedia) hstop
  have hasset' := hconsumes.found
  rw [Document.asset, hpool, hpart.asset, ← Document.asset, hasset] at hasset'
  obtain rfl := Option.some.inj hasset'
  have hrate' := hconsumes.rate
  rw [clipEffectiveFps, hpart.speedPercent, ← clipEffectiveFps, hrate] at hrate'
  obtain rfl := ok.inj hrate'
  exact hconsumes

theorem part_layerOn (hpart : original.Part part start source delta) (hfits : after.Fits)
    (hpool : after.mediaPool = document.mediaPool) {asset : MediaAsset}
    (hasset : document.asset original.asset = some asset)
    (hrate : clipEffectiveFps asset.fps original = .ok effectiveFps)
    (hmedia : original.content = .media) {track : Track} (htrack : track ∈ after.tracks)
    (hmem : part ∈ track.clips) {stop : TimeCode} (hstop : after.clipEnd part = .ok stop)
    (hstart : 0 ≤ original.timelineStart.toInt)
    (hmoved : start.toInt = original.timelineStart.toInt + delta.toInt) (hdelta : 0 ≤ delta.toInt)
    (hle : start ≤ projectAt) (hlt : projectAt < stop) :
    ∃ layers, visualLayersAt after projectAt = .ok layers ∧ (track.kind = .video →
        original.isEnabledAt ((checkedSub projectAt original.timelineStart).getD 0) →
          ∃ layer, layerOn layers track.id = some (.video layer) ∧ ShowsMedia after part effectiveFps projectAt layer) ∧
      (¬ (track.kind = .video ∧ original.isEnabledAt ((checkedSub projectAt original.timelineStart).getD 0)) →
        layerOn layers track.id = none) := by
  have hcurve := (hfits.clips track htrack part hmem).enabledCurve
  have henabled := part_isEnabledAt hpart hcurve hstart hmoved hdelta hle
  have hconsumes := part_consumes hpart hpool hasset hrate hmedia hstop
  have hle' : part.timelineStart ≤ projectAt := by
    rw [hpart.timelineStart]
    exact hle
  have hlayers := hconsumes.layerOn hfits htrack hmem (hpart.content.trans hmedia) hstop hle' hlt
  rw [henabled] at hlayers
  exact hlayers

/-- A part with the clip's own start shows the clip's own frames. -/
theorem shownFrame_left {boundary : TimeCode} (hpart : original.Part part original.timelineStart
      { start := original.sourceRange.start, stop := boundary } delta)
    (hfps : after.fps = document.fps) :
    shownFrame after part effectiveFps projectAt
      = shownFrame document original effectiveFps projectAt := by
  rw [shownFrame, hpart.timelineStart, hpart.sourceRange, hfps, shownFrame]

/-- A part that restarts at a boundary with a matching duration shows a frame that is at most one
rounded step of the source away. -/
theorem shownFrame_right {boundary stop at_ : TimeCode}
    (hpart : original.Part part at_ { start := boundary, stop := stop } delta)
    (hfps : after.fps = document.fps)
    (hmaps : mapSourceRangeToProject original.sourceRange.start boundary effectiveFps document.fps
      = .ok delta) (hdelta : delta.toInt = at_.toInt - original.timelineStart.toInt)
    (hbefore : original.timelineStart ≤ at_) (hle : at_ ≤ projectAt) :
    (SameRate effectiveFps document.fps → shownFrame after part effectiveFps projectAt
      = shownFrame document original effectiveFps projectAt) ∧
    (shownFrame after part effectiveFps projectAt - shownFrame document original effectiveFps projectAt).natAbs
      ≤ Grid.ceil (document.fps.scale effectiveFps) (effectiveFps.scale document.fps) 1 := by
  obtain ⟨hs, hp, hstart, hrange, hduration⟩ := mapSourceRange_ok hmaps
  have ha := hs.scale_pos hp
  have hd := hp.scale_pos hs
  rw [shownFrame_eq (Int64.le_trans hbefore hle), shownFrame_eq (by rw [hpart.timelineStart]; exact hle),
    hpart.timelineStart, hpart.sourceRange, hfps]
  rw [le_iff_toInt_le] at hbefore hle
  dsimp only
  rw [SameRate]
  generalize effectiveFps.scale document.fps = a at *
  generalize document.fps.scale effectiveFps = d at *
  -- the offset into the clip is the offset of the split and the offset into the part
  have hwhole : (projectAt.toInt - original.timelineStart.toInt).toNat
      = delta.toInt.toNat + (projectAt.toInt - at_.toInt).toNat := by omega
  have hsplits : Grid.SplitsAt a d
      (boundary.toInt.toNat - original.sourceRange.start.toInt.toNat) delta.toInt.toNat :=
    Grid.splitsAt hd (by omega) (by omega)
  rw [hwhole]
  have hupper := hsplits.restart_le (k := (projectAt.toInt - at_.toInt).toNat) ha
  have hlower := hsplits.le_restart (k := (projectAt.toInt - at_.toInt).toNat) ha
  refine ⟨?_, by omega⟩
  rintro rfl
  have hsame := hsplits.same
  rw [Grid.floor_same ha, Grid.floor_same ha]
  omega

end Part

/-! ## The picture of a split -/

/-- The layers that a track shows of a clip before and after the clip is split at a frame. -/
structure SamePicture (before after : TimelineVideoLayer) (asset : AssetId)
    (effectiveFps fps : Rational) (projectAt at_ : TimeCode) : Prop where
  asset : before.source.asset = asset ∧ after.source.asset = asset
  left : projectAt < at_ → after.source.sourceAt = before.source.sourceAt
  same : SameRate effectiveFps fps → after.source.sourceAt = before.source.sourceAt
  near : (after.source.sourceAt.toInt - before.source.sourceAt.toInt).natAbs
    ≤ Grid.ceil (fps.scale effectiveFps) (effectiveFps.scale fps) 1

variable {checks : Checks} {after : Document} {track : Track} {original : Clip} {at_ : TimeCode}

/-- One frame of a split clip: what the track shows after the split is what one of the parts shows. -/
theorem split_layerOn (hfits' : after.Fits) {asset : MediaAsset} {effectiveFps : Rational}
    {stop offset boundary : TimeCode} (hstart : 0 ≤ original.timelineStart.toInt)
    (hmedia : original.content = .media)
    (hsplit : SplitOf document after track original at_ stop offset boundary)
    (hconsumes : Consumes document original asset effectiveFps stop)
    (hle : original.timelineStart ≤ projectAt) (hlt : projectAt < stop) :
    ∃ layers, visualLayersAt after projectAt = .ok layers ∧ (track.kind = .video →
        original.isEnabledAt ((checkedSub projectAt original.timelineStart).getD 0) →
          ∃ layer, layerOn layers track.id = some (.video layer) ∧
            mediaLayer after (.video layer) = some layer ∧ layer.source.asset = original.asset ∧
            ∀ before, ShowsMedia document original effectiveFps projectAt before →
              SamePicture before layer original.asset effectiveFps document.fps projectAt at_) ∧
      (¬ (track.kind = .video ∧ original.isEnabledAt ((checkedSub projectAt original.timelineStart).getD 0)) →
        layerOn layers track.id = none) := by
  obtain ⟨clips, htrack, ⟨left, hleft, hleftPart⟩, right, hright, hrightPart⟩ := hsplit.parts
  obtain ⟨asset', effectiveFps', hasset, hrate, hmaps⟩ := hsplit.boundary_maps
  obtain rfl : asset = asset' := Option.some.inj (hconsumes.found.symm.trans hasset)
  obtain rfl : effectiveFps = effectiveFps' := ok.inj (hconsumes.rate.symm.trans hrate)
  obtain ⟨hbefore, -⟩ := hsplit.inside
  have hbeforeInt := lt_iff_toInt_lt.mp hbefore
  have hoffset := hsplit.offset_eq
  by_cases hcase : projectAt < at_
  · -- the left part ends where the clip is split, as the boundary has its duration
    obtain ⟨leftStop, hleftStop, -⟩ := hfits'.stops left (mem_clips htrack hleft)
    obtain ⟨duration, hduration, hend⟩ :=
      (part_consumes hleftPart hsplit.mediaPool hasset hrate hmedia hleftStop).stop
    rw [hleftPart.sourceRange, hsplit.fps, hmaps, ok.injEq] at hduration
    rw [checkedAdd_eq_some, hleftPart.timelineStart, ← hduration] at hend
    have hltStop : projectAt < leftStop := by
      rw [lt_iff_toInt_lt] at hcase ⊢
      omega
    obtain ⟨layers, hlayers, hshown, hhidden⟩ := part_layerOn hleftPart hfits' hsplit.mediaPool
      hasset hrate hmedia htrack hleft hleftStop hstart (by simp) (by simp) hle hltStop
    refine ⟨layers, hlayers, ?_, hhidden⟩
    intro hvideo henabled
    obtain ⟨layer, hlayer, hshows⟩ := hshown hvideo henabled
    refine ⟨layer, hlayer, hshows.media, hshows.asset.trans hleftPart.asset, ?_⟩
    intro before hbefore
    have hframe : layer.source.sourceAt = before.source.sourceAt := by
      rw [← toInt_inj, hshows.sourceAt, hbefore.sourceAt, shownFrame_left hleftPart hsplit.fps]
    refine ⟨⟨hbefore.asset, hshows.asset.trans hleftPart.asset⟩, fun _ => hframe, fun _ => hframe, ?_⟩
    rw [hframe]
    omega
  · -- the right part ends with the clip, as the durations add up
    have hcase' := Int64.not_lt.mp hcase
    obtain ⟨rightStop, hrightStop, -⟩ := hfits'.stops right (mem_clips htrack hright)
    have hrightConsumes := part_consumes hrightPart hsplit.mediaPool hasset hrate hmedia hrightStop
    obtain ⟨duration, hduration, hend⟩ := hrightConsumes.stop
    obtain ⟨whole, hwhole, hwholeEnd⟩ := hconsumes.stop
    obtain ⟨-, -, -, -, hleftInt⟩ := mapSourceRange_ok hmaps
    obtain ⟨-, -, -, -, hwholeInt⟩ := mapSourceRange_ok hwhole
    obtain ⟨-, -, -, -, hdurationInt⟩ := mapSourceRange_ok hduration
    rw [hrightPart.sourceRange, hsplit.fps] at hdurationInt
    rw [checkedAdd_eq_some] at hend hwholeEnd
    rw [hrightPart.timelineStart] at hend
    dsimp only at hdurationInt
    have hltStop : projectAt < rightStop := by
      rw [lt_iff_toInt_lt] at hlt ⊢
      omega
    obtain ⟨layers, hlayers, hshown, hhidden⟩ := part_layerOn hrightPart hfits' hsplit.mediaPool
      hasset hrate hmedia htrack hright hrightStop hstart (by omega) (by omega) hcase' hltStop
    refine ⟨layers, hlayers, ?_, hhidden⟩
    intro hvideo henabled
    obtain ⟨layer, hlayer, hshows⟩ := hshown hvideo henabled
    refine ⟨layer, hlayer, hshows.media, hshows.asset.trans hrightPart.asset, ?_⟩
    intro before hbeforeShows
    obtain ⟨hsame, hnear⟩ := shownFrame_right hrightPart hsplit.fps hmaps hoffset (Int64.le_of_lt hbefore) hcase'
    refine ⟨⟨hbeforeShows.asset, hshows.asset.trans hrightPart.asset⟩, ?_, ?_, ?_⟩
    · exact fun hlt => absurd hlt hcase
    · intro hrates
      rw [← toInt_inj, hshows.sourceAt, hbeforeShows.sourceAt, hsame hrates]
    · rw [hshows.sourceAt, hbeforeShows.sourceAt]
      exact hnear

/-- Splitting a media clip does not change the picture. At each frame of the clip, where the clip is
enabled on a video track, the track shows a media layer of the clip's asset before and after the
split, of the same source frame up to the split, of the same frame throughout when the source plays
at the project's rate, and otherwise of a frame at most a rounded step of the source away. Where the
clip is disabled, or on an audio track, the track shows nothing before or after. -/
theorem split_keeps_picture (htrack : track ∈ document.tracks) (horiginal : original ∈ track.clips)
    (hmedia : original.content = .media)
    (h : applySplit checks document original.id at_ = .ok after) :
    ∃ asset effectiveFps stop, Consumes document original asset effectiveFps stop ∧
      document.clipEnd original = .ok stop ∧
      ∀ projectAt, original.timelineStart ≤ projectAt → projectAt < stop →
        ∃ layers layers', visualLayersAt document projectAt = .ok layers ∧
          visualLayersAt after projectAt = .ok layers' ∧
          (track.kind = .video → original.isEnabledAt ((checkedSub projectAt original.timelineStart).getD 0) →
            ∃ before split, layerOn layers track.id = some (.video before) ∧
              layerOn layers' track.id = some (.video split) ∧
              mediaLayer document (.video before) = some before ∧
              mediaLayer after (.video split) = some split ∧
              SamePicture before split original.asset effectiveFps document.fps projectAt at_) ∧
          (¬ (track.kind = .video ∧ original.isEnabledAt ((checkedSub projectAt original.timelineStart).getD 0)) →
            layerOn layers track.id = none ∧ layerOn layers' track.id = none) := by
  obtain ⟨hfits, hfits', stop, offset, boundary, hsplit⟩ := applySplit_ok htrack horiginal hmedia h
  have hstart := (hfits.clips track htrack original horiginal).start
  obtain ⟨asset, effectiveFps, hconsumes⟩ := consumes hmedia hsplit.clipEnd
  refine ⟨asset, effectiveFps, stop, hconsumes, hsplit.clipEnd, ?_⟩
  intro projectAt hle hlt
  obtain ⟨layers, hlayers, hshown, hhidden⟩ := hconsumes.layerOn hfits htrack horiginal hmedia hsplit.clipEnd hle hlt
  obtain ⟨layers', hlayers', hshown', hhidden'⟩ := split_layerOn hfits' hstart hmedia hsplit hconsumes hle hlt
  refine ⟨layers, layers', hlayers, hlayers', ?_, fun hnot => ⟨hhidden hnot, hhidden' hnot⟩⟩
  intro hvideo henabled
  obtain ⟨before, hbefore, hshows⟩ := hshown hvideo henabled
  obtain ⟨split, hsplitLayer, hsplitMedia, -, hsame⟩ := hshown' hvideo henabled
  exact ⟨before, split, hbefore, hsplitLayer, hshows.media, hsplitMedia, hsame before hshows⟩

def demoTrack : Track where
  id := 1
  kind := .video
  syncLock := false
  clips := [demoClip]

theorem split_keeps_picture_demo : ∃ after layers layers' before split,
    applySplit demoChecks demoDocument 1 20 = .ok after ∧
      visualLayersAt demoDocument 7 = .ok layers ∧ visualLayersAt after 7 = .ok layers' ∧
      layerOn layers 1 = some (.video before) ∧ layerOn layers' 1 = some (.video split) ∧
      split.source.sourceAt = before.source.sourceAt := by
  obtain ⟨after, hafter⟩ : ∃ after, applySplit demoChecks demoDocument 1 20 = .ok after := exists_ok (by decide)
  have htrack : demoTrack ∈ demoDocument.tracks := mem_singleton.mpr rfl
  have hclip : demoClip ∈ demoTrack.clips := mem_singleton.mpr rfl
  obtain ⟨asset, effectiveFps, stop, -, hstop, hpicture⟩ := split_keeps_picture htrack hclip rfl hafter
  have hstop' : demoDocument.clipEnd demoClip = .ok 35 := by decide
  obtain rfl := ok.inj (hstop'.symm.trans hstop)
  obtain ⟨layers, layers', hlayers, hlayers', hshown, -⟩ := hpicture 7 (by decide) (by decide)
  obtain ⟨before, split, hbefore, hsplit, -, -, hsame⟩ := hshown rfl (by decide)
  exact ⟨after, layers, layers', before, split, hafter, hlayers, hlayers', hbefore, hsplit, hsame.left (by decide)⟩

/-- The track of the clip when it is disabled. -/
def demoDisabledTrack : Track := { demoTrack with clips := [{ demoClip with enabled := false }] }

/-- A disabled clip is split like any other, and shows no layer. -/
theorem split_of_disabled_clip : ¬ ∀ (checks : Checks) (document after : Document) (track : Track) (original : Clip)
        (at_ stop projectAt : TimeCode),
      track ∈ document.tracks → original ∈ track.clips → original.content = .media →
        applySplit checks document original.id at_ = .ok after →
        document.clipEnd original = .ok stop →
        original.timelineStart ≤ projectAt → projectAt < stop →
          ∃ layers layers' before split, visualLayersAt document projectAt = .ok layers ∧
            visualLayersAt after projectAt = .ok layers' ∧
            layerOn layers track.id = some (.video before) ∧
            layerOn layers' track.id = some (.video split) := by
  intro h
  obtain ⟨after, hafter⟩ : ∃ after, applySplit demoChecks
      { demoDocument with tracks := [demoDisabledTrack] } 1 20 = .ok after := exists_ok (by decide)
  obtain ⟨layers, -, before, -, hlayers, -, hbefore, -⟩ := h demoChecks
    { demoDocument with tracks := [demoDisabledTrack] } after demoDisabledTrack
    { demoClip with enabled := false } 20 35 7 (mem_singleton.mpr rfl)
    (mem_singleton.mpr rfl) rfl hafter (by decide) (by decide) (by decide)
  have hnone : visualLayersAt { demoDocument with tracks := [demoDisabledTrack] } 7 = .ok [] := by
    decide
  obtain rfl := ok.inj (hnone.symm.trans hlayers)
  cases hbefore

end Kinewright.Timeline
