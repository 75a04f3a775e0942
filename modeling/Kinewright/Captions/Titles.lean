import Kinewright.Captions.Cues
import Kinewright.Edits.Operation

/-!
# The operations of a caption track

`captions.rs`: a list of cues is put on a new track, each cue as a title of a preset. A motion adds effects to the titles,
on clip ids that are counted before any of the clips is made.
-/

namespace Kinewright.Captions

open Fallible Model Edits

inductive CaptionMotion
  | none
  | fade
  | pop
  | slideUp
deriving DecidableEq

/-! ## Motion -/

/-- `keyframe`. -/
def keyframe (at_ : TimeCode) (value : Int64) (interpolation : KeyframeInterpolation) : Keyframe where
  at_ := at_
  value := value
  interpolation := interpolation
  tangentIn := 0
  tangentOut := 0

/-- `dedup_keyframes`: of the keys of one frame, the last is kept. -/
def dedupKeyframes (keyframes : List Keyframe) : AutomationCurve where
  keyframes := keyframes.foldl (fun keys key => insertKey key keys) []

/-- The last frame of a caption. -/
def lastFrame (duration : TimeCode) : TimeCode := saturatingSub duration 1

/-- The frame on which a caption has come in. -/
def entrance (duration : TimeCode) : TimeCode := min (min (max (duration / 4) 1) 6) (lastFrame duration)

/-- The frame from which a caption goes out. -/
def exit (duration : TimeCode) : TimeCode := saturatingSub (lastFrame duration) (entrance duration)

/-- The keys of the opacity of a caption. -/
def opacityKeys (duration : TimeCode) : List Keyframe :=
  [keyframe 0 0 .easeOut, keyframe (entrance duration) 100 .hold, keyframe (exit duration) 100 .easeIn,
    keyframe (lastFrame duration) 0 .linear]

/-- The parameter of the transform that a motion keys, and its keys. -/
def transformKeys (duration : TimeCode) : CaptionMotion → Option (String × List Keyframe)
  | .none | .fade => none
  | .pop =>
    let overshoot := max (entrance duration / 2) 1
    some ("scale_percent",
      [keyframe 0 80 .easeOut, keyframe overshoot 110 .easeInOut, keyframe (entrance duration) 100 .linear])
  | .slideUp => some ("y_percent", [keyframe 0 15 .easeOut, keyframe (entrance duration) 0 .linear])

/-- The effect that fades a caption. -/
def opacityEffect (duration : TimeCode) : Effect where
  id := 1
  name := "opacity"
  parameters := KeyedMap.empty.insert "percent" (.integer 100)
  keyframes := KeyedMap.empty.insert "percent" (dedupKeyframes (opacityKeys duration))
  enabled := true
  enabledCurve := none

/-- The effect that scales or moves a caption. -/
def transformEffect (parameter : String) (keys : List Keyframe) : Effect where
  id := 2
  name := "transform"
  parameters :=
    ((KeyedMap.empty.insert "scale_percent" (.integer 100)).insert "x_percent" (.integer 0)).insert "y_percent"
      (.integer 0)
  keyframes := KeyedMap.empty.insert parameter (dedupKeyframes keys)
  enabled := true
  enabledCurve := none

/-- The effects of a motion on a caption of the duration. -/
def motionEffects (duration : TimeCode) (motion : CaptionMotion) : List Effect :=
  if motion = .none ∨ duration ≤ 1 then []
  else
    opacityEffect duration ::
      ((transformKeys duration motion).map fun (parameter, keys) => transformEffect parameter keys).toList

/-- `caption_motion_effects`. -/
def captionMotionEffects (clip : ClipId) (duration : TimeCode) (motion : CaptionMotion) : List Operation :=
  (motionEffects duration motion).map (.addEffect clip)

/-! ## The plan -/

/-- The title of a cue. -/
def captionTitle (preset : CaptionPreset) (position : Option TitlePosition) (text : String) : Title :=
  let title := preset.title text
  match position with
  | some position => { title with position }
  | none => title

/-- `checked_add` on `u64`. -/
def checkedAddId (id : ℕ) (count : ℕ) : Option ℕ := if id + count < 2 ^ 64 then some (id + count) else none

/-- The frames of a cue, if it has any. -/
def cueDuration (cue : CaptionCue) : Option TimeCode :=
  (checkedSub cue.stop cue.start).filter fun duration => 0 < duration

section

variable (track : TrackId) (firstClipId : ClipId) (preset : CaptionPreset) (motion : CaptionMotion)
  (position : Option TitlePosition)

/-- The loop of `animated_caption_operations_at`: the operations of the cues from the given index on. -/
def cueOperations (index : ℕ) : List CaptionCue → Except CaptionPlanError (List Operation)
  | [] => .ok []
  | cue :: cues => do
    let duration ← okOr .invalidCueDuration (cueDuration cue)
    let clip ← okOr .clipIdExhausted (checkedAddId firstClipId index)
    let rest ← cueOperations (index + 1) cues
    .ok (.addTitle track cue.start duration (captionTitle preset position cue.text) ::
      captionMotionEffects clip duration motion ++ rest)

end

/-- `animated_caption_operations_at`. -/
def animatedCaptionOperationsAt (document : Document) (cues : List CaptionCue) (preset : CaptionPreset)
    (motion : CaptionMotion) (position : Option TitlePosition) : Except CaptionPlanError (List Operation) := do
  refuse (cues = []) .noCues
  let trackId ← okOr .trackIdExhausted
    (checkedAddId ((document.tracks.map Track.id).max?.getD 0) 1)
  let firstClipId ← okOr .clipIdExhausted (checkedAddId ((document.clips.map Clip.id).max?.getD 0) 1)
  let rest ← cueOperations trackId firstClipId preset motion position 0 cues
  .ok (.addTrack { id := trackId, kind := .video, syncLock := true, clips := [] } :: rest)

end Kinewright.Captions
