import Kinewright.Lib.Spans
import Kinewright.Model.ClipData
import Kinewright.Timeline.Layers

/-!
# What is heard of a project range

`timeline.rs`: the portions of the audio clips that a project range intersects. A clip with a curve that enables it is cut into
the runs of frames at which it is enabled. The start of a run is mapped down to a source frame and its end is mapped up.
-/

namespace Kinewright.Timeline

open Fallible Model Int64 Grid
open List hiding concat

structure TimelineAudioSegment where
  track : TrackId
  clip : ClipId
  asset : AssetId
  project : FrameRange
  source : FrameRange
deriving DecidableEq

/-- The inner loop of `enabled_clip_runs`: where a run ends. -/
def runStop (clip : Clip) (stop : TimeCode) : ℕ → TimeCode → TimeCode
  | 0, cursor => cursor
  | fuel + 1, cursor => if cursor < stop ∧ clip.isEnabledAt cursor then runStop clip stop fuel (cursor + 1) else cursor

/-- The outer loop of `enabled_clip_runs`. -/
def enabledClipRunsFrom (clip : Clip) (stop : TimeCode) : ℕ → TimeCode → List FrameRange
  | 0, _ => []
  | fuel + 1, cursor => if cursor < stop then
      if !clip.isEnabledAt cursor then enabledClipRunsFrom clip stop fuel (cursor + 1)
      else let next := runStop clip stop fuel (cursor + 1)
        { start := cursor, stop := next } :: enabledClipRunsFrom clip stop fuel next
    else []

/-- `enabled_clip_runs`: a loop moves the cursor over each frame of the range. -/
def enabledClipRuns (clip : Clip) (start stop : TimeCode) : List FrameRange :=
  enabledClipRunsFrom clip stop (stop.toInt - start.toInt).toNat start

section

variable (document : Document)

/-- The segment of a run in `timeline_audio_segments`. -/
def audioSegment (track : TrackId) (clip : Clip) (asset : MediaAsset) (run : FrameRange) :
    Except MediaError TimelineAudioSegment := do
  let runProjectStart ← okOr .timelineOverflow (checkedAdd clip.timelineStart run.start)
  let runProjectEnd ← okOr .timelineOverflow (checkedAdd clip.timelineStart run.stop)
  let sourceStartOffset ← (mapFramesWithRounding run.start document.fps asset.fps .floor).mapError .mapping
  let sourceEndOffset ← (mapFramesWithRounding run.stop document.fps asset.fps .ceil).mapError .mapping
  let sourceStart ← okOr .sourceOverflow (checkedAdd clip.sourceRange.start sourceStartOffset)
  let sourceEnd ← okOr .sourceOverflow (checkedAdd clip.sourceRange.start sourceEndOffset)
  .ok
    { track := track
      clip := clip.id
      asset := clip.asset
      project := { start := runProjectStart, stop := runProjectEnd }
      source := { start := min sourceStart clip.sourceRange.stop, stop := min sourceEnd clip.sourceRange.stop } }

/-- The segments of one clip in `timeline_audio_segments`. -/
def audioSegmentsOfClip (start requestedEnd : TimeCode) (track : TrackId) (clip : Clip) :
    Except MediaError (List TimelineAudioSegment) :=
  if !clip.content.isMedia then .ok []
  else do
    let asset ← okOr (.missingAsset clip.id clip.asset) (document.asset clip.asset)
    if ¬ (asset.kind = .audio ∨ asset.kind = .audioVideo) then .ok []
    else if clip.speedPercent ≠ 100 then .ok []
    else do
      let duration ← (mapSourceRangeToProject clip.sourceRange.start clip.sourceRange.stop asset.fps document.fps).mapError
        .mapping
      let clipEnd ← okOr .audioOverflow (checkedAdd clip.timelineStart duration)
      let projectStart := max clip.timelineStart start
      let projectEnd := min clipEnd requestedEnd
      if projectEnd ≤ projectStart then .ok []
      else do
        let startOffset ← okOr .timelineUnderflow (checkedSub projectStart clip.timelineStart)
        let endOffset ← okOr .timelineUnderflow (checkedSub projectEnd clip.timelineStart)
        if clip.enabledCurve.isNone ∧ !clip.enabled then .ok []
        else
          let runs := if clip.enabledCurve.isNone then [{ start := startOffset, stop := endOffset }]
            else enabledClipRuns clip startOffset endOffset
          concat (fun run => (audioSegment document track clip asset run).map ([·])) runs

/-- `timeline_audio_segments`. -/
def timelineAudioSegments (start stop : TimeCode) : Except MediaError (List TimelineAudioSegment) :=
  if start.toInt < 0 ∨ stop ≤ start then .error (.emptyAudioRange start stop)
  else
    let requestedEnd := min stop document.duration
    if requestedEnd ≤ start then .ok []
    else concat (fun track => concat (audioSegmentsOfClip document start requestedEnd track.id) track.clips) document.tracks

end

/-! ## The runs of a clip -/

/-- The clip is enabled at a frame behind its start. -/
def EnabledFrom (clip : Clip) (offset : ℤ) : Prop := clip.isEnabledAt (Int64.ofInt offset)

/-- The interval between two frames. -/
def numbers (range : FrameRange) : ℤ × ℤ := (range.start.toInt, range.stop.toInt)

section

variable {clip : Clip} {cursor start stop : TimeCode}

theorem enabledFrom_toInt : EnabledFrom clip cursor.toInt ↔ clip.isEnabledAt cursor := by
  rw [EnabledFrom, ofInt_toInt]

theorem toInt_succ (h : cursor < stop) : (cursor + 1).toInt = cursor.toInt + 1 := by
  rw [lt_iff_toInt_lt] at h
  have hlow := cursor.le_toInt
  have hhigh := stop.toInt_lt
  have hone : (1 : Int64).toInt = 1 := rfl
  rw [toInt_add, hone, Int.bmod_eq_of_le]
  · omega
  · omega

/-- A run goes on as long as the clip is enabled. -/
theorem runStop_spec (clip : Clip) {fuel : ℕ} (hle : cursor ≤ stop) (hfuel : stop.toInt - cursor.toInt ≤ fuel) :
    cursor.toInt ≤ (runStop clip stop fuel cursor).toInt ∧ (runStop clip stop fuel cursor).toInt ≤ stop.toInt ∧
      (∀ offset, cursor.toInt ≤ offset → offset < (runStop clip stop fuel cursor).toInt → EnabledFrom clip offset) ∧
      ((runStop clip stop fuel cursor).toInt < stop.toInt → ¬ EnabledFrom clip (runStop clip stop fuel cursor).toInt) := by
  rw [le_iff_toInt_le] at hle
  induction fuel generalizing cursor with
  | zero =>
    rw [runStop]
    refine ⟨le_rfl, hle, fun offset hfrom hto => ?_, fun h => ?_⟩
    · omega
    · omega
  | succ fuel ih =>
    rw [runStop]
    by_cases hon : cursor < stop ∧ clip.isEnabledAt cursor
    · rw [if_pos hon]
      obtain ⟨hlt, henabled⟩ := hon
      have hsucc := toInt_succ hlt
      rw [lt_iff_toInt_lt] at hlt
      have hnext : stop.toInt - (cursor + 1).toInt ≤ fuel := by omega
      obtain ⟨hlow, hhigh, hall, hend⟩ := ih (by omega) hnext
      refine ⟨by omega, hhigh, fun offset hfrom hto => ?_, hend⟩
      rcases Int.lt_or_eq_of_le hfrom with hafter | rfl
      · exact hall offset (by omega) hto
      · exact enabledFrom_toInt.mpr henabled
    · rw [if_neg hon]
      refine ⟨le_rfl, hle, fun offset hfrom hto => ?_, fun hlt henabled => ?_⟩
      · omega
      · exact hon ⟨lt_iff_toInt_lt.mpr hlt, enabledFrom_toInt.mp henabled⟩

theorem enabledClipRunsFrom_runs {fuel : ℕ} (hfuel : stop.toInt - cursor.toInt ≤ fuel) :
    Spans.Runs (EnabledFrom clip) cursor.toInt stop.toInt ((enabledClipRunsFrom clip stop fuel cursor).map numbers) := by
  induction fuel generalizing cursor with
  | zero => exact .nil (by omega)
  | succ fuel ih =>
    rw [enabledClipRunsFrom]
    by_cases hlt : cursor < stop
    · rw [if_pos hlt]
      have hsucc := toInt_succ hlt
      rw [lt_iff_toInt_lt] at hlt
      by_cases henabled : clip.isEnabledAt cursor
      · have hon : (!clip.isEnabledAt cursor) ≠ true := by simp [henabled]
        rw [if_neg hon]
        have hnext : stop.toInt - (cursor + 1).toInt ≤ fuel := by omega
        obtain ⟨hlow, hhigh, hall, hend⟩ := runStop_spec clip (le_iff_toInt_le.mpr (by omega)) hnext
        have hrest : stop.toInt - (runStop clip stop fuel (cursor + 1)).toInt ≤ fuel := by omega
        have hlt' : cursor.toInt < (runStop clip stop fuel (cursor + 1)).toInt := by omega
        refine (ih hrest).cons hlt' hhigh (fun offset hfrom hto => ?_) hend
        rcases Int.lt_or_eq_of_le hfrom with hafter | rfl
        · exact hall offset (by omega) hto
        · exact enabledFrom_toInt.mpr henabled
      · have hoff : (!clip.isEnabledAt cursor) = true := by simp [henabled]
        rw [if_pos hoff]
        have hnext : stop.toInt - (cursor + 1).toInt ≤ fuel := by omega
        have hrest := ih hnext
        rw [hsucc] at hrest
        exact hrest.skip fun h => henabled (enabledFrom_toInt.mp h)
    · rw [if_neg hlt]
      rw [lt_iff_toInt_lt] at hlt
      exact .nil (by omega)

end

/-! ## The segment of a run -/

variable {document : Document}

/-- A media clip that is heard: of an asset with sound, at its own speed. -/
structure Audible (document : Document) (clip : Clip) (asset : MediaAsset) : Prop where
  media : clip.content = .media
  found : document.asset clip.asset = some asset
  kind : asset.kind = .audio ∨ asset.kind = .audioVideo
  speed : clip.speedPercent = 100

/-- The source frame up to which a clip is needed at the end of its frames before a position, before it is clamped. -/
def neededFrame (document : Document) (clip : Clip) (fps : Rational) (position : ℤ) : ℤ :=
  clip.sourceRange.start.toInt +
    ceil (document.fps.scale fps) (fps.scale document.fps) (position - clip.timelineStart.toInt).toNat

/-- The segment is cut out of the clip. -/
structure CutsOut (document : Document) (track : TrackId) (clip : Clip) (asset : MediaAsset) (segment : TimelineAudioSegment) :
    Prop where
  trackId : segment.track = track
  clipId : segment.clip = clip.id
  assetId : segment.asset = clip.asset
  start : clip.timelineStart ≤ segment.project.start
  project : segment.project.start < segment.project.stop
  stop : ∃ stop, document.clipEnd clip = .ok stop ∧ segment.project.stop ≤ stop
  sourceStart : segment.source.start.toInt = shownFrame document clip asset.fps segment.project.start
  sourceStop : segment.source.stop.toInt =
    min (neededFrame document clip asset.fps segment.project.stop.toInt) clip.sourceRange.stop.toInt

section

variable {track : Track} {clip : Clip} {asset : MediaAsset} {stop : TimeCode} {run : FrameRange}

theorem Audible.consumes (h : Audible document clip asset) (hstop : document.clipEnd clip = .ok stop) :
    Consumes document clip asset asset.fps stop := by
  obtain ⟨asset', effectiveFps, hconsumes⟩ := Timeline.consumes h.media hstop
  obtain rfl := Option.some.inj (h.found.symm.trans hconsumes.found)
  have hrate : clipEffectiveFps asset.fps clip = .ok asset.fps := by
    rw [clipEffectiveFps, speedScaledFps, if_pos h.speed]
  obtain rfl := Except.ok.inj (hrate.symm.trans hconsumes.rate)
  exact hconsumes

/-- The end of a run is the only thing that may not fit. -/
theorem audioSegment_spec (haudible : Audible document clip asset)
    (hstop : document.clipEnd clip = .ok stop) (hstart : 0 ≤ run.start.toInt) (hrun : run.start.toInt < run.stop.toInt)
    (hend : clip.timelineStart.toInt + run.stop.toInt ≤ stop.toInt) (trackId : TrackId) :
    ((∃ segment, audioSegment document trackId clip asset run = .ok segment) ↔
      neededFrame document clip asset.fps (clip.timelineStart.toInt + run.stop.toInt) < 2 ^ 63) ∧
    ∀ segment, audioSegment document trackId clip asset run = .ok segment →
      segment.project.start.toInt = clip.timelineStart.toInt + run.start.toInt ∧
      segment.project.stop.toInt = clip.timelineStart.toInt + run.stop.toInt ∧
      CutsOut document trackId clip asset segment := by
  have hconsumes := haudible.consumes hstop
  obtain ⟨duration, hrange, -⟩ := hconsumes.stop
  obtain ⟨hs, hp, hsource, -⟩ := mapSourceRange_ok hrange
  obtain ⟨projectStart, hprojectStart, hprojectStartInt⟩ :=
    exists_tryFrom (n := clip.timelineStart.toInt + run.start.toInt) (a := clip.timelineStart) (b := stop) (by omega) (by omega)
  obtain ⟨projectEnd, hprojectEnd, hprojectEndInt⟩ :=
    exists_tryFrom (n := clip.timelineStart.toInt + run.stop.toInt) (a := clip.timelineStart) (b := stop) (by omega) (by omega)
  have hle : clip.timelineStart ≤ projectStart := le_iff_toInt_le.mpr (by omega)
  -- the source frame at the start of the run is inside the source range
  have hinside := hconsumes.shownFrame_lt hle (lt_iff_toInt_lt.mpr (by omega))
  have hshown : shownFrame document clip asset.fps projectStart = clip.sourceRange.start.toInt +
      floor (document.fps.scale asset.fps) (asset.fps.scale document.fps) run.start.toInt.toNat := by
    rw [shownFrame_eq hle, hprojectStartInt, add_sub_cancel_left]
  have hlimit := clip.sourceRange.stop.toInt_lt
  obtain ⟨sourceStart, hsourceStart, hsourceStartInt⟩ := exists_tryFrom_of_lt
    (n := (floor (document.fps.scale asset.fps) (asset.fps.scale document.fps) run.start.toInt.toNat : ℤ)) (by omega) (by omega)
  obtain ⟨shown, hshownFrame, hshownInt⟩ := exists_tryFrom_of_lt (n := clip.sourceRange.start.toInt + sourceStart.toInt)
    (by omega) (by omega)
  have hneeded : neededFrame document clip asset.fps (clip.timelineStart.toInt + run.stop.toInt) = clip.sourceRange.start.toInt +
      ceil (document.fps.scale asset.fps) (asset.fps.scale document.fps) run.stop.toInt.toNat := by
    rw [neededFrame, add_sub_cancel_left]
  have hunfold (segment : TimelineAudioSegment) : audioSegment document trackId clip asset run = .ok segment ↔
      ∃ sourceEnd needed : TimeCode, sourceEnd.toInt =
          (ceil (document.fps.scale asset.fps) (asset.fps.scale document.fps) run.stop.toInt.toNat : ℤ) ∧
        needed.toInt = clip.sourceRange.start.toInt + sourceEnd.toInt ∧
        segment = ⟨trackId, clip.id, clip.asset, ⟨projectStart, projectEnd⟩,
          ⟨min shown clip.sourceRange.stop, min needed clip.sourceRange.stop⟩⟩ := by
    rw [audioSegment, checkedAdd, hprojectStart, okOr_some, ok_bind, checkedAdd, hprojectEnd, okOr_some, ok_bind,
      mapFrames_eq hp hs hstart, mapFrames_eq hp hs (by omega), FrameRounding.map, hsourceStart, okOr_some, Except.mapError,
      ok_bind]
    simp only [mapError_eq_ok, okOr_eq_ok, tryFrom_eq_some, FrameRounding.map, checkedAdd, hshownFrame, okOr_some, ok_bind,
      bind_eq_ok, Except.ok.injEq]
    constructor
    · rintro ⟨sourceEnd, hsourceEnd, needed, hneeded, rfl⟩
      exact ⟨sourceEnd, needed, hsourceEnd, hneeded, rfl⟩
    · rintro ⟨sourceEnd, needed, hsourceEnd, hneeded, rfl⟩
      exact ⟨sourceEnd, hsourceEnd, needed, hneeded, rfl⟩
  constructor
  · constructor
    · rintro ⟨segment, hsegment⟩
      obtain ⟨sourceEnd, needed, hsourceEnd, hneededInt, -⟩ := (hunfold segment).mp hsegment
      have hfits := needed.toInt_lt
      omega
    · intro hlt
      obtain ⟨sourceEnd, -, hsourceEnd⟩ := exists_tryFrom_of_lt
        (n := (ceil (document.fps.scale asset.fps) (asset.fps.scale document.fps) run.stop.toInt.toNat : ℤ))
        (by omega) (by omega)
      obtain ⟨needed, -, hneededInt⟩ := exists_tryFrom_of_lt (n := clip.sourceRange.start.toInt + sourceEnd.toInt)
        (by omega) (by omega)
      exact ⟨_, (hunfold _).mpr ⟨sourceEnd, needed, hsourceEnd, hneededInt, rfl⟩⟩
  · intro segment hsegment
    obtain ⟨sourceEnd, needed, hsourceEnd, hneededInt, rfl⟩ := (hunfold segment).mp hsegment
    refine ⟨hprojectStartInt, hprojectEndInt, rfl, rfl, rfl, hle, ?_, ⟨stop, hstop, ?_⟩, ?_, ?_⟩
    · exact lt_iff_toInt_lt.mpr (by dsimp only; omega)
    · exact le_iff_toInt_le.mpr (by dsimp only; omega)
    · dsimp only
      rw [toInt_min]
      omega
    · rw [toInt_min, hprojectEndInt, hneeded, hneededInt, hsourceEnd]

/-! ## The segments of a clip -/

/-- A frame at which a clip is active, counted from the start of the clip. -/
theorem activeAt_iff (hstart : 0 ≤ clip.timelineStart.toInt) (hstop : document.clipEnd clip = .ok stop) {frame : TimeCode} :
    ActiveAt document clip frame ↔ clip.timelineStart ≤ frame ∧ frame < stop ∧
      EnabledFrom clip (frame.toInt - clip.timelineStart.toInt) := by
  have henabled (hle : clip.timelineStart ≤ frame) : EnabledFrom clip (frame.toInt - clip.timelineStart.toInt) ↔
      clip.isEnabledAt ((checkedSub frame clip.timelineStart).getD 0) := by
    rw [le_iff_toInt_le] at hle
    obtain ⟨offset, hoffset, hoffsetInt⟩ := exists_tryFrom_of_lt (n := frame.toInt - clip.timelineStart.toInt) (by omega)
      (by have := frame.toInt_lt; omega)
    rw [checkedSub, hoffset, Option.getD_some, ← hoffsetInt, enabledFrom_toInt]
  constructor
  · rintro ⟨⟨hle, stop', hstop', hlt⟩, hactive⟩
    obtain rfl := Except.ok.inj (hstop.symm.trans hstop')
    exact ⟨hle, hlt, (henabled hle).mpr hactive⟩
  · rintro ⟨hle, hlt, hactive⟩
    exact ⟨⟨hle, stop, hstop, hlt⟩, (henabled hle).mp hactive⟩

/-- The segments of an audible clip are those of the runs of the frames at which it is enabled. -/
theorem audioSegmentsOfClip_runs (haudible : Audible document clip asset) (hstart : 0 ≤ clip.timelineStart.toInt)
    (hstop : document.clipEnd clip = .ok stop) (start requestedEnd : TimeCode) (trackId : TrackId) : ∃ runs,
      audioSegmentsOfClip document start requestedEnd trackId clip =
        concat (fun run => (audioSegment document trackId clip asset run).map ([·])) runs ∧
      Spans.Runs (EnabledFrom clip) (max clip.timelineStart.toInt start.toInt - clip.timelineStart.toInt)
        (min stop.toInt requestedEnd.toInt - clip.timelineStart.toInt) (runs.map numbers) := by
  have hconsumes := haudible.consumes hstop
  obtain ⟨duration, hrange, hend⟩ := hconsumes.stop
  have hmedia : ¬ (!clip.content.isMedia) = true := by simp [haudible.media, ClipContent.isMedia]
  rw [audioSegmentsOfClip, if_neg hmedia, haudible.found, okOr_some, ok_bind, if_neg (not_not.mpr haudible.kind),
    if_neg (not_not.mpr haudible.speed), hrange, Except.mapError, ok_bind, hend, okOr_some, ok_bind]
  by_cases hempty : min stop requestedEnd ≤ max clip.timelineStart start
  · rw [if_pos hempty]
    rw [le_iff_toInt_le, toInt_min, toInt_max] at hempty
    exact ⟨[], rfl, .nil (by omega)⟩
  · rw [if_neg hempty]
    rw [le_iff_toInt_le, toInt_min, toInt_max] at hempty
    have hlimit := stop.toInt_lt
    obtain ⟨startOffset, hstartOffset, hstartOffsetInt⟩ := exists_tryFrom_of_lt
      (n := (max clip.timelineStart start).toInt - clip.timelineStart.toInt) (by rw [toInt_max]; omega) (by rw [toInt_max]; omega)
    obtain ⟨endOffset, hendOffset, hendOffsetInt⟩ := exists_tryFrom_of_lt
      (n := (min stop requestedEnd).toInt - clip.timelineStart.toInt) (by rw [toInt_min]; omega) (by rw [toInt_min]; omega)
    rw [checkedSub, hstartOffset, checkedSub, hendOffset]
    rw [toInt_max] at hstartOffsetInt
    rw [toInt_min] at hendOffsetInt
    rw [← hstartOffsetInt, ← hendOffsetInt]
    have hlt : startOffset.toInt < endOffset.toInt := by omega
    cases hcurve : clip.enabledCurve with
    | some curve => exact ⟨_, rfl, enabledClipRunsFrom_runs (by omega)⟩
    | none =>
      have henabled (offset : ℤ) : EnabledFrom clip offset ↔ clip.enabled = true := by
        rw [EnabledFrom, Clip.isEnabledAt, hcurve]
      cases hon : clip.enabled with
      | false =>
        refine ⟨[], rfl, ?_, forall_mem_nil _, .nil⟩
        intro position
        rw [henabled, hon]
        simp
      | true => exact ⟨_, rfl, .whole hlt fun offset _ _ => (henabled offset).mpr hon⟩

/-- A clip without sound, or at another speed, has no segments. -/
theorem audioSegmentsOfClip_silent (hasset : clip.content = .media → ∃ asset, document.asset clip.asset = some asset)
    (hsilent : ∀ asset, ¬ Audible document clip asset) (start requestedEnd : TimeCode) (trackId : TrackId) :
    audioSegmentsOfClip document start requestedEnd trackId clip = .ok [] := by
  rw [audioSegmentsOfClip]
  by_cases hmedia : clip.content = .media
  · obtain ⟨asset, hfound⟩ := hasset hmedia
    have hcontent : ¬ (!clip.content.isMedia) = true := by simp [hmedia, ClipContent.isMedia]
    rw [if_neg hcontent, hfound, okOr_some, ok_bind]
    by_cases hkind : asset.kind = .audio ∨ asset.kind = .audioVideo
    · rw [if_neg (not_not.mpr hkind), if_pos]
      exact fun hspeed => hsilent asset ⟨hmedia, hfound, hkind, hspeed⟩
    · rw [if_pos hkind]
  · have hcontent : (!clip.content.isMedia) = true := by simp [hmedia, ClipContent.isMedia]
    rw [if_pos hcontent]

/-- The segments of a clip: when there are any, the frames that they cover, and how they are cut out of it. -/
structure ClipHeard (document : Document) (track : TrackId) (clip : Clip) (start stop : TimeCode)
    (result : Except MediaError (List TimelineAudioSegment)) : Prop where
  isOk : (∃ segments, result = .ok segments) ↔ ∀ asset, Audible document clip asset →
    ∀ frame : TimeCode, start ≤ frame → frame < stop → ActiveAt document clip frame →
      neededFrame document clip asset.fps (frame.toInt + 1) < 2 ^ 63
  covers : ∀ segments, result = .ok segments → ∀ frame : TimeCode,
    (∃ segment ∈ segments, segment.project.start ≤ frame ∧ frame < segment.project.stop) ↔
      start ≤ frame ∧ frame < stop ∧ (∃ asset, Audible document clip asset) ∧ ActiveAt document clip frame
  cuts : ∀ segments, result = .ok segments → ∀ segment ∈ segments,
    ∃ asset, Audible document clip asset ∧ CutsOut document track clip asset segment
  apart : ∀ segments, result = .ok segments →
    segments.Pairwise fun segment next => segment.project.stop < next.project.start

theorem clipHeard_silent (hasset : clip.content = .media → ∃ asset, document.asset clip.asset = some asset)
    (hsilent : ∀ asset, ¬ Audible document clip asset) (start requestedEnd : TimeCode) (trackId : TrackId) :
    ClipHeard document trackId clip start requestedEnd
      (audioSegmentsOfClip document start requestedEnd trackId clip) := by
  rw [audioSegmentsOfClip_silent hasset hsilent]
  constructor
  · exact ⟨fun _ asset haudible => absurd haudible (hsilent asset), fun _ => ⟨[], rfl⟩⟩
  · rintro _ ⟨⟩ frame
    constructor
    · rintro ⟨segment, hmember, -⟩
      exact absurd hmember not_mem_nil
    · rintro ⟨-, -, ⟨asset, haudible⟩, -⟩
      exact absurd haudible (hsilent asset)
  · rintro _ ⟨⟩
    exact forall_mem_nil _
  · rintro _ ⟨⟩
    exact .nil

theorem neededFrame_mono {position later : ℤ} (hle : position ≤ later) :
    neededFrame document clip asset.fps position ≤ neededFrame document clip asset.fps later := by
  have hoffset : (position - clip.timelineStart.toInt).toNat ≤ (later - clip.timelineStart.toInt).toNat := by omega
  have hmono := ceil_mono (a := document.fps.scale asset.fps) (d := asset.fps.scale document.fps) hoffset
  rw [neededFrame, neededFrame]
  omega

/-- The frames of the runs are those at which the clip is active. -/
theorem activeAt_iff_run (hstart : 0 ≤ clip.timelineStart.toInt) (hstop : document.clipEnd clip = .ok stop)
    {start requestedEnd : TimeCode} {runs : List FrameRange}
    (hruns : Spans.Runs (EnabledFrom clip) (max clip.timelineStart.toInt start.toInt - clip.timelineStart.toInt)
      (min stop.toInt requestedEnd.toInt - clip.timelineStart.toInt) (runs.map numbers)) (frame : TimeCode) :
    start ≤ frame ∧ frame < requestedEnd ∧ ActiveAt document clip frame ↔
      ∃ run ∈ runs, clip.timelineStart.toInt + run.start.toInt ≤ frame.toInt ∧
        frame.toInt < clip.timelineStart.toInt + run.stop.toInt := by
  have hposition := hruns.covers (frame.toInt - clip.timelineStart.toInt)
  rw [activeAt_iff hstart hstop, le_iff_toInt_le, le_iff_toInt_le, lt_iff_toInt_lt, lt_iff_toInt_lt]
  constructor
  · rintro ⟨hfrom, hto, hlow, hhigh, henabled⟩
    obtain ⟨_, hmem, hrunfrom, hrunto⟩ := hposition.mpr ⟨by omega, by omega, henabled⟩
    obtain ⟨run, hrun, rfl⟩ := mem_map.mp hmem
    dsimp only [numbers] at hrunfrom hrunto
    exact ⟨run, hrun, by omega, by omega⟩
  · rintro ⟨run, hrun, hrunfrom, hrunto⟩
    have hthere : (numbers run).1 ≤ frame.toInt - clip.timelineStart.toInt ∧
        frame.toInt - clip.timelineStart.toInt < (numbers run).2 := by
      dsimp only [numbers]
      omega
    obtain ⟨hfrom, hto, henabled⟩ := hposition.mp ⟨numbers run, mem_map_of_mem hrun, hthere⟩
    exact ⟨by omega, by omega, by omega, by omega, henabled⟩

theorem clipHeard_audible (haudible : Audible document clip asset) (hstart : 0 ≤ clip.timelineStart.toInt)
    (hstop : document.clipEnd clip = .ok stop) (start requestedEnd : TimeCode) (trackId : TrackId) :
    ClipHeard document trackId clip start requestedEnd
      (audioSegmentsOfClip document start requestedEnd trackId clip) := by
  obtain ⟨runs, hresult, hruns⟩ := audioSegmentsOfClip_runs haudible hstart hstop start requestedEnd trackId
  have hwithin : ∀ run ∈ runs, max clip.timelineStart.toInt start.toInt - clip.timelineStart.toInt ≤ run.start.toInt ∧
      run.start.toInt < run.stop.toInt ∧ run.stop.toInt ≤ min stop.toInt requestedEnd.toInt - clip.timelineStart.toInt :=
    fun run hrun => hruns.within (numbers run) (mem_map_of_mem hrun)
  have hsegment : ∀ run ∈ runs, ((∃ segment, audioSegment document trackId clip asset run = .ok segment) ↔
        neededFrame document clip asset.fps (clip.timelineStart.toInt + run.stop.toInt) < 2 ^ 63) ∧
      ∀ segment, audioSegment document trackId clip asset run = .ok segment →
        segment.project.start.toInt = clip.timelineStart.toInt + run.start.toInt ∧
        segment.project.stop.toInt = clip.timelineStart.toInt + run.stop.toInt ∧
        CutsOut document trackId clip asset segment := by
    intro run hrun
    obtain ⟨hfrom, hlt, hto⟩ := hwithin run hrun
    exact audioSegment_spec haudible hstop (by omega) hlt (by omega) trackId
  have hactive := activeAt_iff_run hstart hstop hruns
  have hmap {run : FrameRange} {part : List TimelineAudioSegment} :
      (audioSegment document trackId clip asset run).map ([·]) = .ok part ↔
        ∃ segment, audioSegment document trackId clip asset run = .ok segment ∧ part = [segment] := by
    cases audioSegment document trackId clip asset run with
    | error error => simp [Except.map]
    | ok segment => simp [Except.map, eq_comm]
  have hmem {segments : List TimelineAudioSegment}
      (h : audioSegmentsOfClip document start requestedEnd trackId clip = .ok segments) {segment : TimelineAudioSegment} :
      segment ∈ segments ↔ ∃ run ∈ runs, audioSegment document trackId clip asset run = .ok segment := by
    rw [mem_concat (hresult ▸ h)]
    refine exists_congr fun run => and_congr_right fun _ => ?_
    simp only [hmap]
    constructor
    · rintro ⟨part, ⟨other, hother, rfl⟩, hsegment⟩
      exact mem_singleton.mp hsegment ▸ hother
    · intro hok
      exact ⟨[segment], ⟨segment, hok, rfl⟩, mem_singleton_self _⟩
  constructor
  · rw [hresult, concat_isOk]
    constructor
    · intro hall asset' haudible' frame hfrom hto hframe
      obtain rfl := Option.some.inj (haudible.found.symm.trans haudible'.found)
      obtain ⟨run, hrun, -, hrunto⟩ := (hactive frame).mp ⟨hfrom, hto, hframe⟩
      obtain ⟨part, hpart⟩ := hall run hrun
      obtain ⟨segment, hok, -⟩ := hmap.mp hpart
      have hle : frame.toInt + 1 ≤ clip.timelineStart.toInt + run.stop.toInt := by omega
      exact lt_of_le_of_lt (neededFrame_mono hle) ((hsegment run hrun).1.mp ⟨segment, hok⟩)
    · intro hall run hrun
      obtain ⟨hfrom, hlt, hto⟩ := hwithin run hrun
      have hlimit := stop.toInt_lt
      -- the last frame of the run needs the most
      obtain ⟨frame, -, hframe⟩ := exists_tryFrom_of_lt (n := clip.timelineStart.toInt + run.stop.toInt - 1) (by omega) (by omega)
      obtain ⟨hstart', hstop', hlast⟩ := (hactive frame).mpr ⟨run, hrun, by omega, by omega⟩
      have hneeded := hall asset haudible frame hstart' hstop' hlast
      rw [hframe, Int.sub_add_cancel] at hneeded
      obtain ⟨segment, hok⟩ := (hsegment run hrun).1.mpr hneeded
      exact ⟨[segment], hmap.mpr ⟨segment, hok, rfl⟩⟩
  · intro segments hok frame
    have hframe : start ≤ frame ∧ frame < requestedEnd ∧ (∃ asset, Audible document clip asset) ∧ ActiveAt document clip frame ↔
        start ≤ frame ∧ frame < requestedEnd ∧ ActiveAt document clip frame :=
      and_congr_right fun _ => and_congr_right fun _ => and_iff_right ⟨asset, haudible⟩
    rw [hframe, hactive frame]
    constructor
    · rintro ⟨segment, hmember, hfrom, hto⟩
      obtain ⟨run, hrun, hsegmentOk⟩ := (hmem hok).mp hmember
      obtain ⟨hprojectStart, hprojectStop, -⟩ := (hsegment run hrun).2 segment hsegmentOk
      rw [le_iff_toInt_le] at hfrom
      rw [lt_iff_toInt_lt] at hto
      exact ⟨run, hrun, by omega, by omega⟩
    · rintro ⟨run, hrun, hfrom, hto⟩
      obtain ⟨part, hpart⟩ := concat_isOk.mp ⟨segments, hresult ▸ hok⟩ run hrun
      obtain ⟨segment, hsegmentOk, -⟩ := hmap.mp hpart
      obtain ⟨hprojectStart, hprojectStop, -⟩ := (hsegment run hrun).2 segment hsegmentOk
      exact ⟨segment, (hmem hok).mpr ⟨run, hrun, hsegmentOk⟩, le_iff_toInt_le.mpr (by omega),
        lt_iff_toInt_lt.mpr (by omega)⟩
  · intro segments hok segment hmember
    obtain ⟨run, hrun, hsegmentOk⟩ := (hmem hok).mp hmember
    exact ⟨asset, haudible, ((hsegment run hrun).2 segment hsegmentOk).2.2⟩
  · intro segments hok
    refine pairwise_concat (hresult ▸ hok) (fun run hrun part hpart => ?_) ?_
    · obtain ⟨segment, -, rfl⟩ := hmap.mp hpart
      exact pairwise_singleton _ _
    · refine (pairwise_map.mp hruns.apart).imp_of_mem fun {run next} hrun hnext hlt part part' hpart hpart' => ?_
      obtain ⟨segment, hok, rfl⟩ := hmap.mp hpart
      obtain ⟨segment', hok', rfl⟩ := hmap.mp hpart'
      obtain ⟨-, hprojectStop, -⟩ := (hsegment run hrun).2 segment hok
      obtain ⟨hprojectStart, -⟩ := (hsegment next hnext).2 segment' hok'
      simp only [mem_singleton]
      rintro _ rfl _ rfl
      dsimp only [numbers] at hlt
      exact lt_iff_toInt_lt.mpr (by omega)

theorem clipHeard (hfits : ClipFits document track clip) (hstop : document.clipEnd clip = .ok stop)
    (start requestedEnd : TimeCode) (trackId : TrackId) :
    ClipHeard document trackId clip start requestedEnd (audioSegmentsOfClip document start requestedEnd trackId clip) := by
  by_cases hsound : ∃ asset, Audible document clip asset
  · obtain ⟨asset, haudible⟩ := hsound
    exact clipHeard_audible haudible hfits.start hstop start requestedEnd trackId
  · refine clipHeard_silent (fun hmedia => ?_) (not_exists.mp hsound) start requestedEnd trackId
    obtain ⟨asset, hfound, -⟩ := hfits.asset (by rw [hmedia]; rfl)
    exact ⟨asset, hfound⟩

end

/-! ## The segments of a document -/

section

variable (document : Document)

/-- The clip is heard at the project frame. -/
def Heard (id : ClipId) (frame : TimeCode) : Prop :=
  ∃ track ∈ document.tracks, ∃ clip ∈ track.clips, clip.id = id ∧ (∃ asset, Audible document clip asset) ∧
    ActiveAt document clip frame

/-- Whatever is heard in the range ends on a source frame that the program can count. -/
def Mappable (start stop : TimeCode) : Prop :=
  ∀ track ∈ document.tracks, ∀ clip ∈ track.clips, ∀ asset, Audible document clip asset →
    ∀ frame : TimeCode, start ≤ frame → frame < stop → ActiveAt document clip frame →
      neededFrame document clip asset.fps (frame.toInt + 1) < 2 ^ 63

/-- The segments cover the project frame of the clip. -/
def CoversFrame (segments : List TimelineAudioSegment) (id : ClipId) (frame : TimeCode) : Prop :=
  ∃ segment ∈ segments, segment.clip = id ∧ segment.project.start ≤ frame ∧ frame < segment.project.stop

/-- The source range of the segment is inside that of its clip, and has the source frame of each of its project frames. -/
structure SegmentFits (segment : TimelineAudioSegment) (clip : Clip) (asset : MediaAsset) : Prop where
  clipId : segment.clip = clip.id
  assetId : segment.asset = clip.asset
  audible : Audible document clip asset
  project : segment.project.start < segment.project.stop
  source : segment.source.start < segment.source.stop
  sourceStart : clip.sourceRange.start ≤ segment.source.start
  sourceStop : segment.source.stop ≤ clip.sourceRange.stop
  shown : ∀ frame, segment.project.start ≤ frame → frame < segment.project.stop →
    segment.source.start.toInt ≤ shownFrame document clip asset.fps frame ∧
      shownFrame document clip asset.fps frame < segment.source.stop.toInt

end

section

variable {clip : Clip} {asset : MediaAsset} {segment next : TimelineAudioSegment} {trackId trackId' : TrackId}

theorem CutsOut.fits (h : CutsOut document trackId clip asset segment) (haudible : Audible document clip asset) :
    SegmentFits document segment clip asset := by
  obtain ⟨stop, hstop, hle⟩ := h.stop
  have hconsumes := haudible.consumes hstop
  obtain ⟨duration, hrange, -⟩ := hconsumes.stop
  obtain ⟨hs, hp, hsource, -⟩ := mapSourceRange_ok hrange
  have hproject := h.project
  have hstart := h.start
  have hshown : ∀ frame, segment.project.start ≤ frame → frame < segment.project.stop →
      segment.source.start.toInt ≤ shownFrame document clip asset.fps frame ∧
        shownFrame document clip asset.fps frame < segment.source.stop.toInt := by
    intro frame hfrom hto
    have hafter := Int64.le_trans hstart hfrom
    refine ⟨h.sourceStart ▸ shownFrame_mono hstart hfrom, ?_⟩
    rw [h.sourceStop]
    refine lt_min ?_ (hconsumes.shownFrame_lt hafter (Int64.lt_of_lt_of_le hto hle))
    -- a frame is mapped down to less than the end of its segment is mapped up to
    rw [shownFrame_eq hafter, neededFrame]
    rw [le_iff_toInt_le] at hafter
    rw [lt_iff_toInt_lt] at hto
    have hlt : (frame.toInt - clip.timelineStart.toInt).toNat < (segment.project.stop.toInt - clip.timelineStart.toInt).toNat := by
      omega
    have hmapped := floor_lt_ceil (hp.scale_pos hs) (hs.scale_pos hp) hlt
    omega
  obtain ⟨hlow, hhigh⟩ := hshown segment.project.start Int64.le_rfl hproject
  have hinside : shownFrame document clip asset.fps clip.timelineStart ≤ shownFrame document clip asset.fps segment.project.start :=
    shownFrame_mono Int64.le_rfl hstart
  rw [shownFrame_start, ← h.sourceStart] at hinside
  refine ⟨h.clipId, h.assetId, haudible, hproject, ?_, le_iff_toInt_le.mpr hinside, ?_, hshown⟩
  · exact lt_iff_toInt_lt.mpr (lt_of_le_of_lt hlow hhigh)
  · rw [le_iff_toInt_le, h.sourceStop]
    exact min_le_right _ _

/-- Segments of a clip that follow each other share at most a source frame. -/
theorem CutsOut.overlap (h : CutsOut document trackId clip asset segment) (h' : CutsOut document trackId' clip asset next)
    (haudible : Audible document clip asset) (hle : segment.project.stop ≤ next.project.start) :
    segment.source.stop.toInt ≤ next.source.start.toInt + 1 := by
  obtain ⟨stop, hstop, -⟩ := h.stop
  obtain ⟨duration, hrange, -⟩ := (haudible.consumes hstop).stop
  obtain ⟨hs, hp, -⟩ := mapSourceRange_ok hrange
  have hnext := h'.start
  rw [h.sourceStop, h'.sourceStart, shownFrame_eq hnext, neededFrame]
  rw [le_iff_toInt_le] at hle
  have hoffset : (segment.project.stop.toInt - clip.timelineStart.toInt).toNat ≤
      (next.project.start.toInt - clip.timelineStart.toInt).toNat := by
    omega
  have hceil := (ceil_mono hoffset).trans (ceil_le_floor_add_one (a := document.fps.scale asset.fps) (hs.scale_pos hp))
  omega

end

/-- The segments of a range: when there are any, the frames that they cover, and how they are cut out of their clips. -/
structure RangeHeard (document : Document) (start stop : TimeCode)
    (result : Except MediaError (List TimelineAudioSegment)) : Prop where
  isOk : (∃ segments, result = .ok segments) ↔ Mappable document start stop
  covers : ∀ segments, result = .ok segments → ∀ id frame,
    CoversFrame segments id frame ↔ start ≤ frame ∧ frame < stop ∧ Heard document id frame
  cuts : ∀ segments, result = .ok segments → ∀ segment ∈ segments, ∃ track ∈ document.tracks, ∃ clip ∈ track.clips,
    ∃ asset, Audible document clip asset ∧ CutsOut document track.id clip asset segment
  apart : ∀ segments, result = .ok segments →
    segments.Pairwise fun segment next => segment.clip = next.clip → segment.project.stop < next.project.start

section

variable {start stop : TimeCode}

section

variable (hfits : document.Fits)

include hfits

/-- Nothing is heard behind the end of a document. -/
theorem Heard.lt_duration {id : ClipId} {frame : TimeCode} (h : Heard document id frame) :
    frame < document.duration := by
  obtain ⟨track, htrack, clip, hclip, -, -, ⟨-, clipStop, hstop, hlt⟩, -⟩ := h
  obtain ⟨stop, hstop', hle⟩ := hfits.stops clip (mem_flatMap_of_mem htrack hclip)
  obtain rfl := Except.ok.inj (hstop.symm.trans hstop')
  exact Int64.lt_of_lt_of_le hlt hle

theorem rangeHeard_concat (start requestedEnd : TimeCode) : RangeHeard document start requestedEnd (concat (fun track =>
      concat (audioSegmentsOfClip document start requestedEnd track.id) track.clips) document.tracks) := by
  have hclip : ∀ track ∈ document.tracks, ∀ clip ∈ track.clips, ClipHeard document track.id clip start requestedEnd
      (audioSegmentsOfClip document start requestedEnd track.id clip) := by
    intro track htrack clip hclip
    obtain ⟨clipStop, hstop, -⟩ := hfits.stops clip (mem_flatMap_of_mem htrack hclip)
    exact clipHeard (hfits.clips track htrack clip hclip) hstop start requestedEnd track.id
  have hmem {segments : List TimelineAudioSegment} (h : concat (fun track =>
      concat (audioSegmentsOfClip document start requestedEnd track.id) track.clips) document.tracks = .ok segments)
      {segment : TimelineAudioSegment} : segment ∈ segments ↔ ∃ track ∈ document.tracks, ∃ clip ∈ track.clips,
        ∃ part, audioSegmentsOfClip document start requestedEnd track.id clip = .ok part ∧ segment ∈ part := by
    rw [mem_concat h]
    refine exists_congr fun track => and_congr_right fun htrack => ?_
    constructor
    · rintro ⟨part, hpart, hsegment⟩
      exact (mem_concat hpart).mp hsegment
    · intro hsegment
      obtain ⟨part, hpart⟩ := concat_isOk.mp ⟨segments, h⟩ track htrack
      exact ⟨part, hpart, (mem_concat hpart).mpr hsegment⟩
  constructor
  · rw [concat_isOk]
    refine forall₂_congr fun track htrack => ?_
    rw [concat_isOk]
    exact forall₂_congr fun clip hmember => (hclip track htrack clip hmember).isOk
  · intro segments hok id frame
    constructor
    · rintro ⟨segment, hsegment, rfl, hfrom, hto⟩
      obtain ⟨track, htrack, clip, hmember, part, hpart, hsegment⟩ := (hmem hok).mp hsegment
      obtain ⟨asset, haudible, hcuts⟩ := (hclip track htrack clip hmember).cuts part hpart segment hsegment
      obtain ⟨hstart, hstop, hsound, hactive⟩ :=
        ((hclip track htrack clip hmember).covers part hpart frame).mp ⟨segment, hsegment, hfrom, hto⟩
      exact ⟨hstart, hstop, track, htrack, clip, hmember, hcuts.clipId.symm, hsound, hactive⟩
    · rintro ⟨hstart, hstop, track, htrack, clip, hmember, rfl, hsound, hactive⟩
      obtain ⟨parts, hparts⟩ := concat_isOk.mp ⟨segments, hok⟩ track htrack
      obtain ⟨part, hpart⟩ := concat_isOk.mp ⟨parts, hparts⟩ clip hmember
      obtain ⟨segment, hsegment, hfrom, hto⟩ :=
        ((hclip track htrack clip hmember).covers part hpart frame).mpr ⟨hstart, hstop, hsound, hactive⟩
      obtain ⟨asset, -, hcuts⟩ := (hclip track htrack clip hmember).cuts part hpart segment hsegment
      exact ⟨segment, (hmem hok).mpr ⟨track, htrack, clip, hmember, part, hpart, hsegment⟩, hcuts.clipId, hfrom, hto⟩
  · intro segments hok segment hsegment
    obtain ⟨track, htrack, clip, hmember, part, hpart, hsegment⟩ := (hmem hok).mp hsegment
    exact ⟨track, htrack, clip, hmember, (hclip track htrack clip hmember).cuts part hpart segment hsegment⟩
  · intro segments hok
    obtain ⟨hwithin, hacross⟩ := pairwise_flatMap.mp (pairwise_map.mp hfits.clipIds)
    -- segments of two clips have the ids of these
    have hids : ∀ track ∈ document.tracks, ∀ clip ∈ track.clips, ∀ part,
        audioSegmentsOfClip document start requestedEnd track.id clip = .ok part → ∀ segment ∈ part, segment.clip = clip.id := by
      intro track htrack clip hmember part hpart segment hsegment
      obtain ⟨asset, -, hcuts⟩ := (hclip track htrack clip hmember).cuts part hpart segment hsegment
      exact hcuts.clipId
    refine pairwise_concat hok (fun track htrack part hpart => ?_) ?_
    · refine pairwise_concat hpart (fun clip hmember part hpart => ?_) ?_
      · refine ((hclip track htrack clip hmember).apart part hpart).imp ?_
        intro segment next hlt _
        exact hlt
      · refine (hwithin track htrack).imp_of_mem fun {clip next} hmember hnext hne part part' hpart hpart' segment hsegment
          other hother heq => absurd ?_ hne
        rw [← hids track htrack clip hmember part hpart segment hsegment, heq]
        exact hids track htrack next hnext part' hpart' other hother
    · refine hacross.imp_of_mem fun {track next} htrack hnext hne part part' hpart hpart' segment hsegment other hother heq => ?_
      obtain ⟨clip, hmember, clipPart, hclipPart, hsegment⟩ := (mem_concat hpart).mp hsegment
      obtain ⟨clip', hmember', clipPart', hclipPart', hother⟩ := (mem_concat hpart').mp hother
      refine absurd ?_ (hne clip hmember clip' hmember')
      rw [← hids track htrack clip hmember clipPart hclipPart segment hsegment, heq]
      exact hids next hnext clip' hmember' clipPart' hclipPart' other hother

theorem rangeHeard (hstart : 0 ≤ start.toInt) (hlt : start < stop) :
    RangeHeard document start stop (timelineAudioSegments document start stop) := by
  have hvalid : ¬ (start.toInt < 0 ∨ stop ≤ start) := by
    rw [le_iff_toInt_le]
    rw [lt_iff_toInt_lt] at hlt
    omega
  rw [timelineAudioSegments, if_neg hvalid]
  -- the end of the document cuts nothing off that is heard
  have hend {frame : TimeCode} {id : ClipId} (hheard : Heard document id frame) :
      frame < min stop document.duration ↔ frame < stop := by
    have hduration := hheard.lt_duration hfits
    rw [lt_iff_toInt_lt] at hduration ⊢
    rw [lt_iff_toInt_lt, toInt_min]
    omega
  by_cases hbehind : min stop document.duration ≤ start
  · rw [if_pos hbehind]
    have hsilent {id : ClipId} {frame : TimeCode} (hfrom : start ≤ frame) (hto : frame < stop) : ¬ Heard document id frame := by
      intro hheard
      have hbefore := Int64.lt_of_lt_of_le ((hend hheard).mpr hto) hbehind
      exact Int64.lt_irrefl (Int64.lt_of_lt_of_le hbefore hfrom)
    constructor
    · refine ⟨fun _ track htrack clip hmember asset haudible frame hfrom hto hactive => ?_, fun _ => ⟨[], rfl⟩⟩
      exact absurd ⟨track, htrack, clip, hmember, rfl, ⟨asset, haudible⟩, hactive⟩ (hsilent hfrom hto)
    · rintro _ ⟨⟩ id frame
      constructor
      · rintro ⟨segment, hsegment, -⟩
        exact absurd hsegment not_mem_nil
      · rintro ⟨hfrom, hto, hheard⟩
        exact absurd hheard (hsilent hfrom hto)
    · rintro _ ⟨⟩
      exact forall_mem_nil _
    · rintro _ ⟨⟩
      exact .nil
  · rw [if_neg hbehind]
    have hrange := rangeHeard_concat hfits start (min stop document.duration)
    refine ⟨hrange.isOk.trans ?_, fun segments hok id frame => (hrange.covers segments hok id frame).trans ?_, hrange.cuts,
      hrange.apart⟩
    · constructor
      · intro hmap track htrack clip hmember asset haudible frame hfrom hto hactive
        have hheard : Heard document clip.id frame := ⟨track, htrack, clip, hmember, rfl, ⟨asset, haudible⟩, hactive⟩
        exact hmap track htrack clip hmember asset haudible frame hfrom ((hend hheard).mpr hto) hactive
      · intro hmap track htrack clip hmember asset haudible frame hfrom hto hactive
        have hheard : Heard document clip.id frame := ⟨track, htrack, clip, hmember, rfl, ⟨asset, haudible⟩, hactive⟩
        exact hmap track htrack clip hmember asset haudible frame hfrom ((hend hheard).mp hto) hactive
    · exact and_congr_right fun _ => ⟨fun ⟨hto, hheard⟩ => ⟨(hend hheard).mp hto, hheard⟩,
        fun ⟨hto, hheard⟩ => ⟨(hend hheard).mpr hto, hheard⟩⟩

end

theorem Mappable.mono {start' stop' : TimeCode} (h : Mappable document start stop) (hstart : start ≤ start')
    (hstop : stop' ≤ stop) : Mappable document start' stop' :=
  fun track htrack clip hclip asset haudible frame hfrom hto hactive =>
    h track htrack clip hclip asset haudible frame (Int64.le_trans hstart hfrom) (Int64.lt_of_lt_of_le hto hstop) hactive

/-- The clips of a document are told apart by their ids. -/
theorem clip_ext (hfits : document.Fits) {track track' : Track} {clip clip' : Clip} (htrack : track ∈ document.tracks)
    (hclip : clip ∈ track.clips) (htrack' : track' ∈ document.tracks) (hclip' : clip' ∈ track'.clips) (hid : clip.id = clip'.id) :
    clip = clip' :=
  inj_on_of_nodup_map hfits.clipIds (mem_flatMap_of_mem htrack hclip) (mem_flatMap_of_mem htrack' hclip') hid

/-- A range of a valid document has its segments if all that is heard in it ends on a source frame that can be counted. The
segments of the parts of a range then divide the frames of the range, which are those at which a clip is heard. -/
theorem timelineAudioSegments_partition {checks : Checks} (hvalid : validateDocument checks document = .ok ()) {cut : TimeCode}
    (hstart : 0 ≤ start.toInt) (hcut : start < cut) (hstop : cut < stop) :
    ((∃ whole, timelineAudioSegments document start stop = .ok whole) ↔ Mappable document start stop) ∧
    (Mappable document start stop → ∃ whole first second, timelineAudioSegments document start stop = .ok whole ∧
      timelineAudioSegments document start cut = .ok first ∧
      timelineAudioSegments document cut stop = .ok second ∧
      (∀ id frame, CoversFrame whole id frame ↔ CoversFrame first id frame ∨ CoversFrame second id frame) ∧
      (∀ id frame, ¬ (CoversFrame first id frame ∧ CoversFrame second id frame)) ∧
      (∀ id frame, CoversFrame whole id frame ↔ start ≤ frame ∧ frame < stop ∧ Heard document id frame) ∧
      (∀ segment ∈ whole ++ first ++ second, ∃ track ∈ document.tracks, ∃ clip ∈ track.clips, ∃ asset,
        segment.track = track.id ∧ SegmentFits document segment clip asset) ∧
      (∀ segments ∈ [whole, first, second],
        segments.Pairwise fun segment next => segment.clip = next.clip → segment.project.stop < next.project.start) ∧
      ∀ segment ∈ whole ++ first ++ second, ∀ next ∈ whole ++ first ++ second, segment.clip = next.clip →
        segment.project.stop ≤ next.project.start → segment.source.stop.toInt ≤ next.source.start.toInt + 1) := by
  have hfits := validateDocument_ok hvalid
  have hcut' : 0 ≤ cut.toInt := by
    rw [lt_iff_toInt_lt] at hcut
    omega
  have hwhole := rangeHeard hfits hstart (Int64.lt_trans hcut hstop)
  have hfirst := rangeHeard hfits hstart hcut
  have hsecond := rangeHeard hfits hcut' hstop
  refine ⟨hwhole.isOk, fun hmap => ?_⟩
  obtain ⟨whole, hwholeOk⟩ := hwhole.isOk.mpr hmap
  obtain ⟨first, hfirstOk⟩ := hfirst.isOk.mpr (hmap.mono Int64.le_rfl (Int64.le_of_lt hstop))
  obtain ⟨second, hsecondOk⟩ := hsecond.isOk.mpr (hmap.mono (Int64.le_of_lt hcut) Int64.le_rfl)
  have hcuts : ∀ segment ∈ whole ++ first ++ second, ∃ track ∈ document.tracks, ∃ clip ∈ track.clips, ∃ asset,
      Audible document clip asset ∧ CutsOut document track.id clip asset segment := by
    intro segment hsegment
    rcases mem_append.mp hsegment with hsegment | hsegment
    · rcases mem_append.mp hsegment with hsegment | hsegment
      · exact hwhole.cuts whole hwholeOk segment hsegment
      · exact hfirst.cuts first hfirstOk segment hsegment
    · exact hsecond.cuts second hsecondOk segment hsegment
  refine ⟨whole, first, second, hwholeOk, hfirstOk, hsecondOk, fun id frame => ?_, fun id frame => ?_, hwhole.covers whole hwholeOk,
    fun segment hsegment => ?_, ?_, fun segment hsegment next hnext hid hle => ?_⟩
  · rw [hwhole.covers whole hwholeOk, hfirst.covers first hfirstOk, hsecond.covers second hsecondOk]
    constructor
    · rintro ⟨hfrom, hto, hheard⟩
      by_cases hbefore : frame < cut
      · exact .inl ⟨hfrom, hbefore, hheard⟩
      · exact .inr ⟨Int64.not_lt.mp hbefore, hto, hheard⟩
    · rintro (⟨hfrom, hto, hheard⟩ | ⟨hfrom, hto, hheard⟩)
      · exact ⟨hfrom, Int64.lt_trans hto hstop, hheard⟩
      · exact ⟨Int64.le_of_lt (Int64.lt_of_lt_of_le hcut hfrom), hto, hheard⟩
  · rw [hfirst.covers first hfirstOk, hsecond.covers second hsecondOk]
    rintro ⟨⟨-, hbefore, -⟩, hafter, -⟩
    exact Int64.lt_irrefl (Int64.lt_of_lt_of_le hbefore hafter)
  · obtain ⟨track, htrack, clip, hclip, asset, haudible, hcutsOut⟩ := hcuts segment hsegment
    exact ⟨track, htrack, clip, hclip, asset, hcutsOut.trackId, hcutsOut.fits haudible⟩
  · refine forall_mem_cons.mpr ⟨hwhole.apart whole hwholeOk, forall_mem_cons.mpr ⟨hfirst.apart first hfirstOk, ?_⟩⟩
    exact forall_mem_singleton.mpr (hsecond.apart second hsecondOk)
  · obtain ⟨track, htrack, clip, hclip, asset, haudible, hcutsOut⟩ := hcuts segment hsegment
    obtain ⟨track', htrack', clip', hclip', asset', haudible', hcutsOut'⟩ := hcuts next hnext
    rw [hcutsOut.clipId, hcutsOut'.clipId] at hid
    obtain rfl := clip_ext hfits htrack hclip htrack' hclip' hid
    obtain rfl := Option.some.inj (haudible.found.symm.trans haudible'.found)
    exact hcutsOut.overlap hcutsOut' haudible hle

end

/-- A sound at two frames a second, heard from the start of a project of one frame a second. -/
def soundDocument (frames projectFrames : TimeCode) : Document :=
  { demoDocument with
    tracks := [{ id := 1, kind := .audio, syncLock := false, clips :=
      [{ demoClip with sourceRange := { start := 0, stop := frames }, timelineStart := 0 }] }]
    mediaPool := [{ demoAsset with duration := frames, fps := { numerator := 2, denominator := 1 }, kind := .audio,
                                   resolution := none }]
    fps := { numerator := 1, denominator := 1 }
    duration := projectFrames }

/-- The end of the longest sound that there can be has no source frame, so none of it up to the end is listed. -/
theorem longest_sound_not_listed : (soundDocument 9223372036854775807 4611686018427387904).validate = .ok () ∧
    timelineAudioSegments (soundDocument 9223372036854775807 4611686018427387904) 0 4611686018427387904 =
      .error (.mapping .overflow) ∧
    timelineAudioSegments (soundDocument 9223372036854775807 4611686018427387904) 0 1 =
      .ok [⟨1, 1, 1, ⟨0, 1⟩, ⟨0, 2⟩⟩] := by
  decide +kernel

theorem timelineAudioSegments_partition_sound : ∃ whole first second,
    timelineAudioSegments (soundDocument 10 5) 0 4 = .ok whole ∧
    timelineAudioSegments (soundDocument 10 5) 0 1 = .ok first ∧
    timelineAudioSegments (soundDocument 10 5) 1 4 = .ok second ∧
    ∀ id frame, CoversFrame whole id frame ↔ CoversFrame first id frame ∨ CoversFrame second id frame := by
  have hvalid : (soundDocument 10 5).validate = .ok () := by decide +kernel
  have hfrom : 0 ≤ (0 : TimeCode).toInt := by decide
  have hcut : (0 : TimeCode) < 1 := by decide
  have hto : (1 : TimeCode) < 4 := by decide
  obtain ⟨hmappable, hparts⟩ := timelineAudioSegments_partition hvalid hfrom hcut hto
  obtain ⟨whole, first, second, hwhole, hfirst, hsecond, hcovers, -⟩ := hparts (hmappable.mp ⟨_, rfl⟩)
  exact ⟨whole, first, second, hwhole, hfirst, hsecond, hcovers⟩

end Kinewright.Timeline
