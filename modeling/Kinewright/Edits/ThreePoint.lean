import Kinewright.Edits.Ripple

/-!
# Three-point edits

`operation.rs`: a range of the source goes onto the timeline, by inserting time or by overwriting. Three
boundaries are marked and the fourth is derived.

The edits run on a draft, which remembers beside the document which clips were made and removed so far.
-/

namespace Kinewright.Edits

open Fallible Model

/-! ## Drafts -/

/-- What an edit did to a clip. -/
inductive ClipEvent
  | made (clip : ClipId)
  | removed (clip : ClipId)
deriving DecidableEq

/-- A document in the course of an edit. -/
structure Draft where
  doc : Document
  events : List ClipEvent

namespace Draft

/-- A step that makes no clip and removes none. -/
def keep (draft : Draft) (edit : Document → Except OpError Document) : Except OpError Draft := do
  let doc ← edit draft.doc
  .ok { draft with doc }

/-- A step that makes one clip, with the next id. -/
def make (draft : Draft) (edit : Document → Except OpError Document) : Except OpError Draft := do
  let doc ← edit draft.doc
  let id ← draft.doc.nextClipId
  .ok { doc, events := draft.events ++ [.made id] }

/-- A step that removes the clip. -/
def remove (draft : Draft) (clip : ClipId) (edit : Document → Except OpError Document) : Except OpError Draft := do
  let doc ← edit draft.doc
  .ok { doc, events := draft.events ++ [.removed clip] }

/-- `split_clip`: the clip goes on as its left part. -/
def split (draft : Draft) (clip : ClipId) (at_ : TimeCode) : Except OpError Draft := draft.make (splitClip · clip at_)

/-- `add_clip`. -/
def add (draft : Draft) (track : TrackId) (asset : AssetId) (at_ : TimeCode) (source : FrameRange) :
    Except OpError Draft :=
  draft.make (addClip · track asset at_ source)

/-- `delete_clip`. -/
def delete (draft : Draft) (clip : ClipId) : Except OpError Draft := draft.remove clip (deleteClip · clip)

/-- A step for each element, one after the other. -/
def each {α : Type} (step : Draft → α → Except OpError Draft) (draft : Draft) : List α → Except OpError Draft
  | [] => .ok draft
  | a :: as => do
    let next ← step draft a
    each step next as

end Draft

/-! ## The four boundaries -/

inductive ThreePointMode
  | insert
  | overwrite
deriving DecidableEq

/-- The marked boundaries. -/
structure Marks where
  sourceIn : Option TimeCode
  sourceOut : Option TimeCode
  timelineIn : Option TimeCode
  timelineOut : Option TimeCode
deriving DecidableEq

/-- `validate_three_point_selection`. -/
def validateThreePointSelection (marks : Marks) : Except OpError Unit :=
  refuse ([marks.sourceIn, marks.sourceOut, marks.timelineIn, marks.timelineOut].countP Option.isSome ≠ 3)
    .invalidThreePointSelection

/-- `validate_timeline_range`. -/
def validateTimelineRange (start stop : TimeCode) : Except OpError Unit :=
  refuse (start < 0 ∨ stop ≤ start) (.invalidThreePointTimeline start stop)

/-- `timeline_duration`. -/
def timelineDuration (range : FrameRange) : Except OpError TimeCode :=
  okOr .timeOverflow (checkedSub range.stop range.start)

/-- The duration of a source range in the project. -/
def projectDuration (doc : Document) (media : MediaAsset) (source : FrameRange) : Except OpError TimeCode :=
  (mapSourceRangeToProject source.start source.stop media.fps doc.fps).mapError .timeMapping

/-- The match of `derive_three_point_ranges`. -/
def deriveFourth (doc : Document) (media : MediaAsset) : Marks → Except OpError (FrameRange × FrameRange)
  | ⟨some sourceIn, some sourceOut, some timelineIn, none⟩ => do
    validateSourceRange media ⟨sourceIn, sourceOut⟩
    let duration ← projectDuration doc media ⟨sourceIn, sourceOut⟩
    let timelineOut ← okOr .timeOverflow (checkedAdd timelineIn duration)
    .ok (⟨sourceIn, sourceOut⟩, ⟨timelineIn, timelineOut⟩)
  | ⟨some sourceIn, some sourceOut, none, some timelineOut⟩ => do
    validateSourceRange media ⟨sourceIn, sourceOut⟩
    let duration ← projectDuration doc media ⟨sourceIn, sourceOut⟩
    let timelineIn ← okOr .timeOverflow (checkedSub timelineOut duration)
    .ok (⟨sourceIn, sourceOut⟩, ⟨timelineIn, timelineOut⟩)
  | ⟨some sourceIn, none, some timelineIn, some timelineOut⟩ => do
    validateTimelineRange timelineIn timelineOut
    let duration ← timelineDuration ⟨timelineIn, timelineOut⟩
    let sourceOut ← okOr (.invalidThreePointSource sourceIn media.duration)
      (sourceEndForProjectDuration sourceIn media.duration media.fps doc.fps duration)
    .ok (⟨sourceIn, sourceOut⟩, ⟨timelineIn, timelineOut⟩)
  | ⟨none, some sourceOut, some timelineIn, some timelineOut⟩ => do
    validateTimelineRange timelineIn timelineOut
    let duration ← timelineDuration ⟨timelineIn, timelineOut⟩
    let sourceIn ← okOr (.invalidThreePointSource 0 sourceOut)
      (sourceStartForProjectDuration 0 sourceOut media.fps doc.fps duration)
    .ok (⟨sourceIn, sourceOut⟩, ⟨timelineIn, timelineOut⟩)
  | _ => .error .invalidThreePointSelection

/-- `derive_three_point_ranges`. -/
def deriveThreePointRanges (doc : Document) (media : MediaAsset) (marks : Marks) :
    Except OpError (FrameRange × FrameRange) := do
  let (source, timeline) ← deriveFourth doc media marks
  validateSourceRange media source
  validateTimelineRange timeline.start timeline.stop
  let duration ← timelineDuration timeline
  let mapped ← projectDuration doc media source
  refuse (mapped ≠ duration) (.invalidThreePointSource source.start source.stop)
  .ok (source, timeline)

/-! ## Inserting and overwriting -/

/-- The clip goes on over the frame. -/
def straddles (doc : Document) (at_ : TimeCode) (clip : Clip) : Bool :=
  match doc.clipEnd clip with
  | .ok stop => clip.timelineStart < at_ && at_ < stop
  | .error _ => false

/-- The clips that are split for an insertion, the first on each track that takes part. -/
def straddling (doc : Document) (targets : List TrackId) (at_ : TimeCode) : List ClipId :=
  (rippled doc targets).filterMap fun track => (track.clips.find? (straddles doc at_)).map Clip.id

/-- Time is inserted. -/
def insertTime (draft : Draft) (targets : List TrackId) (at_ duration : TimeCode) : Except OpError Draft := do
  let draft ← Draft.each (fun draft clip => draft.split clip at_) draft (straddling draft.doc targets at_)
  draft.keep (rippleInsertGapForTracks · targets at_ duration)

/-- The clip of the track that goes on over the frame is split there. -/
def splitTrack (track : TrackId) (draft : Draft) (at_ : TimeCode) : Except OpError Draft := do
  let found ← trackOf draft.doc track
  match found.clips.find? (straddles draft.doc at_) with
  | some clip => draft.split clip.id at_
  | none => .ok draft

/-- The clip lies inside the range. -/
def isInside (doc : Document) (range : FrameRange) (clip : Clip) : Bool :=
  match doc.clipEnd clip with
  | .ok stop => range.start ≤ clip.timelineStart && stop ≤ range.stop
  | .error _ => false

/-- `clear_track_range`. -/
def clearTrackRange (range : FrameRange) (draft : Draft) (track : TrackId) : Except OpError Draft := do
  let draft ← Draft.each (splitTrack track) draft [range.stop, range.start]
  let found ← trackOf draft.doc track
  Draft.each Draft.delete draft ((found.clips.filter (isInside draft.doc range)).map Clip.id)

/-- Room is made for a clip on each of the tracks. -/
def makeRoom (draft : Draft) (targets : List TrackId) (timeline : FrameRange) (duration : TimeCode) :
    ThreePointMode → Except OpError Draft
  | .insert => insertTime draft targets timeline.start duration
  | .overwrite => Draft.each (clearTrackRange timeline) draft targets

/-- `three_point_edit`. -/
def threePointEdit (draft : Draft) (track : TrackId) (asset : AssetId) (marks : Marks)
    (mode : ThreePointMode) : Except OpError Draft := do
  validateThreePointSelection marks
  let media ← okOr (.missingAsset asset) (draft.doc.asset asset)
  let found ← trackOf draft.doc track
  validateTrackCompatibility media found
  let (source, timeline) ← deriveThreePointRanges draft.doc media marks
  let duration ← timelineDuration timeline
  let draft ← makeRoom draft [track] timeline duration mode
  draft.add track asset timeline.start source

/-! ## Routes -/

/-- The destinations of the parts of an asset. -/
structure Routes where
  video : Option TrackId
  audio : Option TrackId
deriving DecidableEq

/-- The routes that are given, with their component and the kind of track they need. -/
def Routes.list (routes : Routes) : List (String × TrackKind × TrackId) :=
  routes.video.toList.map (fun track => ("video", .video, track)) ++
    routes.audio.toList.map fun track => ("audio", .audio, track)

/-- The check of a route after the routes before it. -/
def validateRoute (doc : Document) (media : MediaAsset) (before : List (String × TrackKind × TrackId))
    (route : String × TrackKind × TrackId) : Except OpError Unit := do
  refuse (route.2.2 ∈ before.map fun other => other.2.2) (.duplicateSourcePatchTrack route.2.2)
  let track ← trackOf doc route.2.2
  refuse (track.kind ≠ route.2.1) (.invalidSourcePatchRouteKind route.1 route.2.1 track.kind route.2.2)
  validateTrackCompatibility media track

/-- `validate_source_patch_routes`. -/
def validateSourcePatchRoutes (doc : Document) (media : MediaAsset) (routes : Routes) :
    Except OpError (List TrackId) := do
  allAfter (validateRoute doc media) [] routes.list
  refuse (routes.list = []) .emptySourcePatch
  .ok (routes.list.map fun route => route.2.2)

/-- A clip is added on each of the tracks; their ids. -/
def addEach (asset : AssetId) (at_ : TimeCode) (source : FrameRange) (draft : Draft) :
    List TrackId → Except OpError (Draft × List ClipId)
  | [] => .ok (draft, [])
  | track :: tracks => do
    let id ← draft.doc.nextClipId
    let next ← draft.add track asset at_ source
    let (last, ids) ← addEach asset at_ source next tracks
    .ok (last, id :: ids)

/-- Two clips are linked. -/
def linkPair (draft : Draft) (clips : List ClipId) : Except OpError Draft :=
  if clips.length = 2 then draft.keep (linkClips · clips) else .ok draft

/-- `patched_three_point_edit`. -/
def patchedThreePointEdit (draft : Draft) (asset : AssetId) (marks : Marks) (mode : ThreePointMode)
    (routes : Routes) : Except OpError Draft := do
  validateThreePointSelection marks
  let media ← okOr (.missingAsset asset) (draft.doc.asset asset)
  let targets ← validateSourcePatchRoutes draft.doc media routes
  let (source, timeline) ← deriveThreePointRanges draft.doc media marks
  let duration ← timelineDuration timeline
  let draft ← makeRoom draft targets timeline duration mode
  let (draft, clips) ← addEach asset timeline.start source draft targets
  linkPair draft clips

end Kinewright.Edits
