import Mathlib.Data.List.MinMax
import Kinewright.Edits.ClipEdits

/-!
# Edits of the clips on a track

`operation.rs`: clips that are added, moved, trimmed, slipped, rolled, slid, replaced, deleted and linked.
-/

namespace Kinewright.Edits

open Fallible Model

/-! ## Adding clips -/

/-- The track of the id, which an edit names. -/
def trackOf (doc : Document) (id : TrackId) : Except OpError Track :=
  okOr (.missingTrack id) (doc.tracks.find? fun track => track.id = id)

/-- The clip is pushed onto the track, and the track is sorted. -/
def insertClip (doc : Document) (track : TrackId) (clip : Clip) : Document :=
  { doc with
    tracks := doc.tracks.modifyFirst (fun other => other.id = track) fun track =>
      { track with clips := (track.clips ++ [clip]).insertionSort Clip.le } }

/-- A clip as the edits that add one make it. -/
def newClip (id : ClipId) (asset : AssetId) (sourceRange : FrameRange) (content : ClipContent)
    (timelineStart : TimeCode) (effects : List Effect) : Clip where
  id := id
  asset := asset
  sourceRange := sourceRange
  content := content
  timelineStart := timelineStart
  effects := effects
  transitionIn := none
  link := none
  audioGainTenthDb := 0
  audioFadeInFrames := 0
  audioFadeOutFrames := 0
  audioGainCurve := none
  speedPercent := 100
  enabled := true
  enabledCurve := none
  blendMode := .normal

/-- `add_clip`. A still has no media range. -/
def addClip (doc : Document) (track : TrackId) (asset : AssetId) (at_ : TimeCode) (source : FrameRange) :
    Except OpError Document := do
  refuse (at_ < 0) (.negativeTimelinePosition at_)
  let media ← okOr (.missingAsset asset) (doc.asset asset)
  refuse (media.kind = .image) (.invalidSourceRange source.start source.stop)
  validateSourceRange media source
  let found ← trackOf doc track
  validateTrackCompatibility media found
  let id ← doc.nextClipId
  .ok (insertClip doc track (newClip id asset source .media at_ []))

/-- `add_title`. -/
def addTitle (doc : Document) (track : TrackId) (at_ duration : TimeCode) (title : Title) :
    Except OpError Document := do
  refuse (at_ < 0) (.negativeTimelinePosition at_)
  refuse (duration ≤ 0) (.invalidTitleDuration duration)
  let found ← trackOf doc track
  refuse (found.kind ≠ .video) (.spanOnAudioTrack (.title title) track)
  let id ← doc.nextClipId
  validateTitle id title duration
  .ok (insertClip doc track (newClip id 0 { start := 0, stop := duration } (.title title) at_ []))

/-- `add_freeze_frame`. -/
def addFreezeFrame (doc : Document) (track : TrackId) (at_ duration : TimeCode) (asset : AssetId)
    (sourceFrame : TimeCode) : Except OpError Document := do
  refuse (at_ < 0) (.negativeTimelinePosition at_)
  refuse (duration ≤ 0) (.invalidFreezeDuration duration)
  let found ← trackOf doc track
  refuse (found.kind ≠ .video) (.spanOnAudioTrack (.freeze sourceFrame) track)
  let media ← okOr (.missingAsset asset) (doc.asset asset)
  validateTrackCompatibility media found
  validateFreezeSourceFrame media sourceFrame
  let id ← doc.nextClipId
  .ok (insertClip doc track
    (newClip id asset { start := 0, stop := duration } (.freeze sourceFrame) at_ []))

/-- `add_generated_clip`, of an adjustment layer or a solid colour. -/
def addGeneratedClip (doc : Document) (track : TrackId) (timelineStart duration : TimeCode)
    (content : ClipContent) (effects : List Effect) : Except OpError Document := do
  let found ← trackOf doc track
  refuse (timelineStart < 0) (.negativeTimelinePosition timelineStart)
  refuse (duration ≤ 0) (.invalidSourceRange 0 duration)
  let _ ← okOr .timeOverflow (checkedAdd timelineStart duration)
  refuse (found.kind ≠ .video) (.spanOnAudioTrack content track)
  let id ← doc.nextClipId
  .ok (insertClip doc track (newClip id 0 { start := 0, stop := duration } content timelineStart effects))

/-! ## Deleting and moving -/

/-- The document without the clip. -/
def Place.remove (place : Place) (doc : Document) : Document :=
  place.setClips doc (place.track.clips.eraseIdx place.clipIndex)

/-- `delete_clip`. -/
def deleteClip (doc : Document) (clip : ClipId) : Except OpError Document := do
  let place ← placeOf doc clip
  .ok (place.remove doc)

/-- The track takes the content of the clip. -/
def checkTarget (doc : Document) (clip : Clip) (target : Track) : Except OpError Unit :=
  match clip.content with
  | .media => do
    let media ← okOr (.missingAsset clip.asset) (doc.asset clip.asset)
    validateTrackCompatibility media target
  | content => refuse (target.kind ≠ .video) (.spanOnAudioTrack content target.id)

/-- `move_clip`. -/
def moveClip (doc : Document) (clip : ClipId) (target : TrackId) (at_ : TimeCode) : Except OpError Document := do
  refuse (at_ < 0) (.negativeTimelinePosition at_)
  let place ← placeOf doc clip
  let found ← trackOf doc target
  checkTarget doc place.clip found
  .ok (insertClip (place.remove doc) target { place.clip with timelineStart := at_ })

/-! ## Trimming and slipping -/

/-- The rate that the source range of a clip is in, in `trim_clip`. The new range is checked first. -/
def trimFps (doc : Document) (clip : Clip) (newSource : FrameRange) : Except OpError Rational :=
  match clip.content with
  | .media => do
    let media ← okOr (.missingAsset clip.asset) (doc.asset clip.asset)
    validateSourceRange media newSource
    (clipEffectiveFps media.fps clip).mapError .timeMapping
  | _ => do
    validateTitleRange newSource
    .ok doc.fps

/-- The start of a trimmed clip. -/
def trimStart (doc : Document) (clip : Clip) (fps : Rational) (start : TimeCode) : Except OpError TimeCode :=
  if clip.sourceRange.start < start then do
    let offset ← (mapSourceRangeToProject clip.sourceRange.start start fps doc.fps).mapError .timeMapping
    okOr .timeOverflow (checkedAdd clip.timelineStart offset)
  else if start < clip.sourceRange.start then do
    let offset ← (mapSourceRangeToProject start clip.sourceRange.start fps doc.fps).mapError .timeMapping
    okOr .timeOverflow (checkedSub clip.timelineStart offset)
  else .ok clip.timelineStart

/-- The fades of a title are no longer than its new range. -/
def clampTitle (duration : TimeCode) : ClipContent → ClipContent
  | .title title =>
    .title { title with
      fadeInFrames := min title.fadeInFrames duration
      fadeOutFrames := min title.fadeOutFrames duration }
  | content => content

/-- `trim_clip`. -/
def trimClip (doc : Document) (clip : ClipId) (newSource : FrameRange) : Except OpError Document :=
  surviveEdit doc clip fun _ original => do
    let fps ← trimFps doc original newSource
    let start ← trimStart doc original fps newSource.start
    refuse (start < 0) (.negativeTimelinePosition start)
    let duration ← okOr .timeOverflow (checkedSub newSource.stop newSource.start)
    .ok ({ original with
      timelineStart := start
      sourceRange := newSource
      content := clampTitle duration original.content }, start - original.timelineStart)

/-- `slip_clip`. -/
def slipClip (doc : Document) (clip : ClipId) (newSourceIn : TimeCode) : Except OpError Document :=
  editClip doc clip fun _ found => do
    refuse (found.content.isMedia = false) (.editorialRequiresMedia clip)
    let span ← okOr .timeOverflow (checkedSub found.sourceRange.stop found.sourceRange.start)
    let newSourceOut ← okOr .timeOverflow (checkedAdd newSourceIn span)
    let media ← okOr (.missingAsset found.asset) (doc.asset found.asset)
    let source : FrameRange := { start := newSourceIn, stop := newSourceOut }
    validateSourceRange media source
    .ok { found with sourceRange := source }

/-! ## The boundaries of a source range -/

/-- `source_end_for_project_duration`. The halving of a range that starts below zero may overflow in the
source; such a range is refused afterwards. -/
def sourceEndForProjectDuration (sourceStart maximumEnd : TimeCode) (sourceFps projectFps : Rational)
    (projectDuration : TimeCode) : Option TimeCode := do
  let low ← checkedAdd sourceStart 1
  searchBoundary { start := sourceStart, stop := maximumEnd } projectDuration sourceFps projectFps
    (maximumEnd.toInt - low.toInt + 1).toNat low.toInt maximumEnd.toInt

/-- The halving of `source_start_for_project_duration`. -/
def searchStart (sourceEnd projectDuration : TimeCode) (sourceFps projectFps : Rational) : ℕ → ℤ → ℤ → Option TimeCode
  | 0, _, _ => none
  | fuel + 1, low, high => if low ≤ high then let middle := low + (high - low) / 2
      match mapSourceRangeToProject (Int64.ofInt middle) sourceEnd sourceFps projectFps with
      | .error _ => none
      | .ok mapped =>
        if projectDuration < mapped then
          searchStart sourceEnd projectDuration sourceFps projectFps fuel (middle + 1) high
        else if mapped < projectDuration then
          searchStart sourceEnd projectDuration sourceFps projectFps fuel low (middle - 1)
        else some (Int64.ofInt middle)
    else none

/-- `source_start_for_project_duration`: the search has a step for each frame of the range. -/
def sourceStartForProjectDuration (minimumStart sourceEnd : TimeCode) (sourceFps projectFps : Rational)
    (projectDuration : TimeCode) : Option TimeCode := do
  let high ← checkedSub sourceEnd 1
  searchStart sourceEnd projectDuration sourceFps projectFps (high.toInt - minimumStart.toInt + 1).toNat
    minimumStart.toInt high.toInt

/-- The end of the source range of a clip that is to last the duration. -/
def sourceOut (doc : Document) (clip : Clip) (at_ duration : TimeCode) : Except OpError TimeCode :=
  match clip.content with
  | .media => do
    let media ← okOr (.missingAsset clip.asset) (doc.asset clip.asset)
    let fps ← (clipEffectiveFps media.fps clip).mapError .timeMapping
    okOr (.unrepresentableEditBoundary clip.id at_)
      (sourceEndForProjectDuration clip.sourceRange.start media.duration fps doc.fps duration)
  | _ => okOr (.unrepresentableEditBoundary clip.id at_) (checkedAdd clip.sourceRange.start duration)

/-- The source range of a clip of media that is to last the duration up to its end; the range of a span is
the given one. -/
def sourceIn (doc : Document) (clip : Clip) (at_ duration : TimeCode) (span : Option FrameRange) :
    Except OpError FrameRange :=
  match clip.content with
  | .media => do
    let media ← okOr (.missingAsset clip.asset) (doc.asset clip.asset)
    let fps ← (clipEffectiveFps media.fps clip).mapError .timeMapping
    let start ← okOr (.unrepresentableEditBoundary clip.id at_)
      (sourceStartForProjectDuration 0 clip.sourceRange.stop fps doc.fps duration)
    .ok { clip.sourceRange with start }
  | _ => okOr (.unrepresentableEditBoundary clip.id at_) span

/-! ## Rolling and sliding -/

/-- The range of a span on the right of a rolled boundary: its origin never moves. -/
def rolledSpan (source : FrameRange) (duration : TimeCode) : Option FrameRange := do
  let stop ← checkedAdd source.start duration
  if source.start < stop then some { source with stop } else none

/-- `roll_edit`. -/
def rollEdit (doc : Document) (leftId rightId : ClipId) (at_ : TimeCode) : Except OpError Document := do
  let left ← placeOf doc leftId
  let right ← placeOf doc rightId
  refuse (left.trackIndex ≠ right.trackIndex ∨ right.clipIndex ≠ left.clipIndex + 1) (.clipsNotAdjacent leftId rightId)
  let leftEnd ← doc.clipEnd left.clip
  let rightEnd ← doc.clipEnd right.clip
  refuse (leftEnd ≠ right.clip.timelineStart ∨ at_ ≤ left.clip.timelineStart ∨ rightEnd ≤ at_)
    (.clipsNotAdjacent leftId rightId)
  let leftDuration ← okOr .timeOverflow (checkedSub at_ left.clip.timelineStart)
  let leftSourceOut ← sourceOut doc left.clip at_ leftDuration
  let rightDuration ← okOr .timeOverflow (checkedSub rightEnd at_)
  let rightRange ← sourceIn doc right.clip at_ rightDuration
    (rolledSpan right.clip.sourceRange rightDuration)
  let leftClip ← doc.surviveClipEdit
    { left.clip with sourceRange := { left.clip.sourceRange with stop := leftSourceOut } } 0
  let rightClip ← doc.surviveClipEdit
    { right.clip with sourceRange := rightRange, timelineStart := at_ } (at_ - right.clip.timelineStart)
  .ok (left.setClips doc ((left.track.clips.set left.clipIndex leftClip).set right.clipIndex rightClip))

/-- The neighbours of a clip on its track. -/
def neighbors (place : Place) : Option (Clip × Clip) := do
  let left ← if place.clipIndex = 0 then none else place.track.clips[place.clipIndex - 1]?
  let right ← place.track.clips[place.clipIndex + 1]?
  some (left, right)

/-- `slide_clip`. -/
def slideClip (doc : Document) (clip : ClipId) (at_ : TimeCode) : Except OpError Document := do
  let middle ← placeOf doc clip
  let (left, right) ← okOr (.slideRequiresNeighbors clip) (neighbors middle)
  let leftEnd ← doc.clipEnd left
  let middleDuration ← doc.clipDuration middle.clip
  let middleEnd ← doc.clipEnd middle.clip
  let rightEnd ← doc.clipEnd right
  let newEnd ← okOr .timeOverflow (checkedAdd at_ middleDuration)
  refuse (leftEnd ≠ middle.clip.timelineStart ∨ middleEnd ≠ right.timelineStart ∨
    at_ ≤ left.timelineStart ∨ rightEnd ≤ newEnd) (.slideRequiresNeighbors clip)
  let leftDuration ← okOr .timeOverflow (checkedSub at_ left.timelineStart)
  let leftSourceOut ← sourceOut doc left at_ leftDuration
  let rightDuration ← okOr .timeOverflow (checkedSub rightEnd newEnd)
  let rightRange ← sourceIn doc right newEnd rightDuration
    ((checkedSub right.sourceRange.stop rightDuration).map fun start => { right.sourceRange with start })
  let leftClip ← doc.surviveClipEdit
    { left with sourceRange := { left.sourceRange with stop := leftSourceOut } } 0
  let rightClip ← doc.surviveClipEdit
    { right with sourceRange := rightRange, timelineStart := newEnd } (at_ - middle.clip.timelineStart)
  .ok (middle.setClips doc (((middle.track.clips.set (middle.clipIndex - 1) leftClip).set middle.clipIndex
      { middle.clip with timelineStart := at_ }).set (middle.clipIndex + 1) rightClip))

/-! ## Replacing -/

/-- The speed that would fill the slot exactly. -/
def idealSpeed (realTime required : TimeCode) : Option ℕ := do
  let scaled ← tryFrom (realTime.toInt * 100)
  let biased ← tryFrom (scaled.toInt + required.toInt.tdiv 2)
  let quotient ← if required = 0 then none else tryFrom (biased.toInt.tdiv required.toInt)
  if 0 ≤ quotient.toInt ∧ quotient.toInt < 2 ^ 32 then some quotient.toInt.toNat else none

/-- The range lasts the duration at the speed. -/
def fills (media : MediaAsset) (source : FrameRange) (projectFps : Rational) (required : TimeCode) (speed : ℕ) : Bool :=
  match speedScaledFps media.fps (UInt32.ofNat speed) with
  | .error _ => false
  | .ok effective =>
    (mapSourceRangeToProject source.start source.stop effective projectFps).toOption = some required

/-- `abs_diff`. -/
def absDiff (speed ideal : ℕ) : ℕ := max speed ideal - min speed ideal

/-- The speed of `FitToFill`: the nearest one to the ideal that fills the slot exactly. -/
def fitSpeed (doc : Document) (clip : ClipId) (media : MediaAsset) (source : FrameRange)
    (realTime required : TimeCode) : Except OpError UInt32 := do
  let ideal ← okOr .timeOverflow (idealSpeed realTime required)
  let speeds := (List.range' 10 991).filter (fills media source doc.fps required)
  let speed ← okOr (.fitToFillUnrepresentable clip) (speeds.argmin (absDiff · ideal))
  .ok (UInt32.ofNat speed)

/-- The speed at which the range takes the place of a clip that lasts the duration. -/
def replacementSpeed (doc : Document) (clip : ClipId) (media : MediaAsset) (source : FrameRange)
    (required : TimeCode) (fitToFill : Bool) : Except OpError UInt32 := do
  let actual ← (mapSourceRangeToProject source.start source.stop media.fps doc.fps).mapError .timeMapping
  if fitToFill then fitSpeed doc clip media source actual required
  else if actual = required then .ok 100
  else .error (.replacementDurationMismatch clip required actual)

/-- `replace_clip`. -/
def replaceClip (doc : Document) (clip : ClipId) (asset : AssetId) (source : FrameRange)
    (fitToFill : Bool) : Except OpError Document :=
  editClip doc clip fun track original => do
    refuse (original.content.isMedia = false) (.editorialRequiresMedia clip)
    let required ← doc.clipDuration original
    let media ← okOr (.missingAsset asset) (doc.asset asset)
    validateSourceRange media source
    validateTrackCompatibility media track
    let speedPercent ← replacementSpeed doc clip media source required fitToFill
    .ok { original with asset, sourceRange := source, content := .media, speedPercent }

/-! ## Links -/

/-- `validate_clip_selection`. -/
def validateClipSelection (doc : Document) (clips : List ClipId) (minimum : ℕ) : Except OpError Unit := do
  refuse (clips.length < minimum) (.tooFewLinkedClips minimum)
  allAfter (fun before clip => do
      refuse (clip ∈ before) (.duplicateClipSelection clip)
      refuse ((findClip clip doc.tracks).isNone) (.missingClip clip))
    [] clips

/-- `next_link_id`. -/
def nextLinkId (doc : Document) : Except OpError LinkId :=
  let last := (doc.clips.filterMap Clip.link).max?.getD 0
  if last + 1 < 2 ^ 64 then .ok (last + 1) else .error .linkIdExhausted

/-- The link of the clips is set. -/
def setLink (doc : Document) (clips : List ClipId) (link : Option LinkId) : Document :=
  { doc with
    tracks := doc.tracks.map fun track =>
      { track with
        clips := track.clips.map fun clip => if clip.id ∈ clips then { clip with link } else clip } }

/-- `link_clips`. -/
def linkClips (doc : Document) (clips : List ClipId) : Except OpError Document := do
  validateClipSelection doc clips 2
  let link ← nextLinkId doc
  .ok (setLink doc clips (some link))

/-- `unlink_clips`. -/
def unlinkClips (doc : Document) (clips : List ClipId) : Except OpError Document := do
  validateClipSelection doc clips 1
  .ok (setLink doc clips none)

end Kinewright.Edits
