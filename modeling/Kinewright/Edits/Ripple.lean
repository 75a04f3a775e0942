import Kinewright.Edits.Clips

/-!
# Ripples

`operation.rs`: edits that close or open a gap on the track of the edit and on every track whose sync is
locked. The automation of those tracks and the markers move with the clips.
-/

namespace Kinewright.Edits

open Fallible Model

/-! ## Automation -/

/-- The key that is left before the frames that a ripple removes. -/
def deletedBoundary (curve : AutomationCurve) (start ripplePoint : TimeCode) : List Keyframe :=
  if 0 < start ∧ ∃ key ∈ curve.keyframes, start ≤ key.at_ ∧ key.at_ < ripplePoint then
    match curve.valueAt (start - 1) with
    | some value =>
      [{ at_ := start - 1
         value := value
         interpolation := curve.segmentInterpolationAt (start - 1)
         tangentIn := 0
         tangentOut := 0 }]
    | none => []
  else []

/-- The keys of a curve outside the removed frames, those after them moved back. -/
def closedKeys (curve : AutomationCurve) (start ripplePoint duration : TimeCode) : List Keyframe :=
  (curve.keyframes.filter fun key => ¬ (start ≤ key.at_ ∧ key.at_ < ripplePoint)).map fun key =>
    if ripplePoint ≤ key.at_ then { key with at_ := key.at_ - duration } else key

/-- `ripple_delete_curve`. -/
def rippleDeleteCurve (curve : AutomationCurve) (start ripplePoint duration : TimeCode) :
    AutomationCurve :=
  let keys := (closedKeys curve start ripplePoint duration).foldl (fun keys key => insertKey key keys)
    (deletedBoundary curve start ripplePoint)
  if keys = [] then
    match curve.valueAt ripplePoint with
    | some value =>
      { keyframes :=
          [{ at_ := start
             value := value
             interpolation := curve.segmentInterpolationAt ripplePoint
             tangentIn := 0
             tangentOut := 0 }] }
    | none => { keyframes := [] }
  else { keyframes := keys }

/-- The keys at or after the frame are moved on. The sum is not checked. -/
def shiftKeys (curve : AutomationCurve) (at_ duration : TimeCode) : AutomationCurve where
  keyframes := curve.keyframes.map fun key =>
    if at_ ≤ key.at_ then { key with at_ := key.at_ + duration } else key

/-- `ripple_insert_curve`. -/
def rippleInsertCurve (curve : AutomationCurve) (at_ duration projectDuration : TimeCode) :
    AutomationCurve :=
  clampProjectCurve (shiftKeys curve at_ duration) projectDuration

/-- `ripple_track_automation`. -/
def rippleTrackAutomation (mix : AudioMix) (tracks : List TrackId)
    (rewrite : AutomationCurve → AutomationCurve) : AudioMix :=
  { mix with
    tracks := mix.tracks.map fun entry =>
      if entry.track ∈ tracks then
        { entry with
          gainCurve := entry.gainCurve.map rewrite
          panCurve := entry.panCurve.map rewrite }
      else entry }

/-! ## Clips and markers -/

/-- The tracks that take part in a ripple of the given ones. -/
def rippled (doc : Document) (targets : List TrackId) : List Track :=
  doc.tracks.filter fun track => track.id ∈ targets || track.syncLock

/-- The clip of a track that takes part is moved, if it starts at the boundary or after it. -/
def shiftClip (targets : List TrackId) (boundary : TimeCode) (shift : TimeCode → Option TimeCode)
    (track : Track) (clip : Clip) : Except OpError Clip :=
  if (track.id ∈ targets ∨ track.syncLock = true) ∧ boundary ≤ clip.timelineStart then do
    let timelineStart ← okOr .timeOverflow (shift clip.timelineStart)
    .ok { clip with timelineStart }
  else .ok clip

/-- The markers at the boundary or after it, moved. -/
def shiftEach (boundary : TimeCode) (shift : TimeCode → Option TimeCode) : List Marker → Except OpError (List Marker)
  | [] => .ok []
  | marker :: markers => do
    let position ← if boundary ≤ marker.position then okOr .timeOverflow (shift marker.position)
      else .ok marker.position
    let rest ← shiftEach boundary shift markers
    .ok ({ marker with position } :: rest)

/-- `shift_markers_left` and `shift_markers_right`. -/
def shiftMarkers (markers : List Marker) (boundary : TimeCode) (shift : TimeCode → Option TimeCode) :
    Except OpError (List Marker) := do
  let shifted ← shiftEach boundary shift markers
  .ok (sortMarkers shifted)

/-! ## The edits -/

/-- `ripple_delete_clip`. -/
def rippleDeleteClip (doc : Document) (clip : ClipId) : Except OpError Document := do
  let place ← placeOf doc clip
  let duration ← doc.clipDuration place.clip
  let ripplePoint ← okOr .timeOverflow (checkedAdd place.clip.timelineStart duration)
  let without := place.remove doc
  let tracks ← editTracks (shiftClip [place.track.id] ripplePoint (checkedSub · duration)) without.tracks
  let markers ← shiftMarkers doc.markers ripplePoint fun position =>
    (checkedSub position duration).map (max 0)
  .ok { without with
    tracks
    markers
    audioMix := rippleTrackAutomation doc.audioMix ((rippled doc [place.track.id]).map Track.id)
      (rippleDeleteCurve · place.clip.timelineStart ripplePoint duration) }

/-- `ripple_insert_gap_for_tracks`. -/
def rippleInsertGapForTracks (doc : Document) (targets : List TrackId) (at_ duration : TimeCode) :
    Except OpError Document := do
  refuse (at_ < 0) (.negativeTimelinePosition at_)
  refuse (duration ≤ 0) (.invalidRippleDuration duration)
  all (fun target => refuse (target ∉ doc.tracks.map Track.id) (.missingTrack target)) targets
  let tracks ← editTracks (shiftClip targets at_ (checkedAdd · duration)) doc.tracks
  let moved ← Document.recomputeDuration { doc with tracks }
  let markers ← shiftMarkers doc.markers at_ (checkedAdd · duration)
  .ok { moved with
    markers
    audioMix := rippleTrackAutomation moved.audioMix ((rippled doc targets).map Track.id)
      (rippleInsertCurve · at_ duration moved.duration) }

/-- `ripple_insert_gap`. -/
def rippleInsertGap (doc : Document) (track : TrackId) (at_ duration : TimeCode) : Except OpError Document :=
  rippleInsertGapForTracks doc [track] at_ duration

end Kinewright.Edits
