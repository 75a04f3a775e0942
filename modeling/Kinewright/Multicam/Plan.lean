import Mathlib.Data.Prod.Lex
import Kinewright.Edits.Operation
import Kinewright.Transcript.Words

/-!
# Plans for speakers in front of several cameras

`multicam.rs`: the words of a transcript are joined to turns, one angle at a time; the turns that are long enough are put in
order and stretched over the silences between them, and each one becomes an overwrite of the target track. `to_lowercase` is a
parameter.
-/

namespace Kinewright.Multicam

open Fallible Model Edits Transcript

structure SpeakerAngleAssignment where
  speaker : String
  angleName : String
deriving DecidableEq

structure SpeakerMulticamSettings where
  syncGroup : SyncGroupId
  targetTrack : TrackId
  groupStart : TimeCode
  groupEnd : TimeCode
  recordStart : TimeCode
  maximumWordGapFrames : TimeCode
  minimumShotFrames : TimeCode
  assignments : List SpeakerAngleAssignment
deriving DecidableEq

structure SpeakerMulticamCut where
  speakers : List String
  angleName : String
  asset : AssetId
  groupStart : TimeCode
  groupEnd : TimeCode
  timelineStart : TimeCode
  timelineEnd : TimeCode
  sourceIn : TimeCode
deriving DecidableEq

structure SpeakerMulticamPlan where
  syncGroup : SyncGroupId
  targetTrack : TrackId
  referenceAsset : AssetId
  groupStart : TimeCode
  groupEnd : TimeCode
  recordStart : TimeCode
  suppressedShortShots : ℕ
  cuts : List SpeakerMulticamCut
  operations : List Operation

/-- `SpeakerMulticamError`. A plan that is not applicable keeps the error, not its text. -/
inductive SpeakerMulticamError
  | missingSyncGroup (group : SyncGroupId)
  | missingTargetTrack (track : TrackId)
  | targetTrackIsAudio (track : TrackId)
  | invalidGroupRange (start stop : TimeCode)
  | invalidRecordStart (start : TimeCode)
  | invalidTimingPolicy
  | missingAssignments
  | emptyAssignment
  | duplicateSpeakerAssignment (speaker : String)
  | duplicateAngleName (group : SyncGroupId) (angle : String)
  | unknownAngle (angle : String)
  | missingAsset (asset : AssetId)
  | angleHasNoVideo (angle : String) (asset : AssetId)
  | referenceAssetNotInGroup (asset : AssetId)
  | transcriptRateMismatch
  | invalidTranscriptWord (index : ℕ) (start stop : TimeCode)
  | missingSpeakerLabel (index : ℕ)
  | unmappedSpeaker (speaker : String)
  | overlappingSpeakers (start : TimeCode)
  | noSpeakerWords
  | allShotsSuppressed
  | angleDoesNotCover (angle : String) (groupFrame angleOffset : TimeCode)
  | timeOverflow
  | planNotApplicable (error : BatchError)
  | timeMapping (error : TimeMappingError)

/-- `RawTurn`. -/
structure RawTurn where
  speakers : List String
  angleKey : String
  angleName : String
  start : TimeCode
  stop : TimeCode
deriving DecidableEq

/-- `add_offset`. -/
def addOffset (left right : TimeCode) : Except SpeakerMulticamError TimeCode :=
  okOr .timeOverflow (checkedAdd left right)

/-- `intersect`. -/
def intersect (left right : FrameRange) : Option FrameRange :=
  let start := max left.start right.start
  let stop := min left.stop right.stop
  if start < stop then some { start, stop } else none

section

variable (lower : String → String)

/-- `normalized_name`. -/
def normalizedName (value : String) : String := lower (Text.trim value)

/-! ## What the plan is made from -/

/-- The angles of the group by their names. -/
def anglesOf (document : Document) (group : SyncGroup) (angles : KeyedMap String SyncGroupMember) :
    List SyncGroupMember → Except SpeakerMulticamError (KeyedMap String SyncGroupMember)
  | [] => .ok angles
  | member :: members => do
    let key := normalizedName lower member.angleName
    refuse (angles.get? key).isSome (.duplicateAngleName group.id member.angleName)
    let _ ← okOr (.missingAsset member.asset) (document.asset member.asset)
    anglesOf document group (angles.insert key member) members

/-- The angle and the display name of each assigned speaker. -/
def assignmentsOf (document : Document) (angles : KeyedMap String SyncGroupMember)
    (assigned : KeyedMap String (String × String)) :
    List SpeakerAngleAssignment → Except SpeakerMulticamError (KeyedMap String (String × String))
  | [] => .ok assigned
  | assignment :: assignments => do
    let speakerKey := normalizedName lower assignment.speaker
    let angleKey := normalizedName lower assignment.angleName
    refuse (speakerKey = "" ∨ angleKey = "") .emptyAssignment
    let member ← okOr (.unknownAngle assignment.angleName) (angles.get? angleKey)
    let asset ← okOr (.missingAsset member.asset) (document.asset member.asset)
    refuse (asset.kind.supports .video = false) (.angleHasNoVideo member.angleName member.asset)
    refuse (assigned.get? speakerKey).isSome (.duplicateSpeakerAssignment assignment.speaker)
    assignmentsOf document angles (assigned.insert speakerKey (angleKey, Text.trim assignment.speaker)) assignments

/-- What is checked before the words are read. -/
structure Setup where
  angles : KeyedMap String SyncGroupMember
  reference : SyncGroupMember
  referenceAsset : MediaAsset
  assignments : KeyedMap String (String × String)

def setup (document : Document) (transcript : AssetTranscript) (settings : SpeakerMulticamSettings) :
    Except SpeakerMulticamError Setup := do
  refuse (settings.groupEnd ≤ settings.groupStart) (.invalidGroupRange settings.groupStart settings.groupEnd)
  refuse (settings.recordStart < 0) (.invalidRecordStart settings.recordStart)
  refuse (settings.maximumWordGapFrames < 0 ∨ settings.minimumShotFrames < 0) .invalidTimingPolicy
  let group ← okOr (.missingSyncGroup settings.syncGroup)
    (document.catalog.syncGroups.find? fun group => group.id = settings.syncGroup)
  let target ← okOr (.missingTargetTrack settings.targetTrack)
    (document.tracks.find? fun track => track.id = settings.targetTrack)
  refuse (target.kind ≠ .video) (.targetTrackIsAudio target.id)
  let angles ← anglesOf lower document group .empty group.members
  let reference ← okOr (.referenceAssetNotInGroup transcript.asset)
    (group.members.find? fun member => member.asset = transcript.asset)
  let referenceAsset ← okOr (.missingAsset reference.asset) (document.asset reference.asset)
  refuse (transcript.sourceFps ≠ referenceAsset.fps) .transcriptRateMismatch
  refuse (settings.assignments = []) .missingAssignments
  let assignments ← assignmentsOf lower document angles .empty settings.assignments
  .ok { angles, reference, referenceAsset, assignments }

/-! ## Turns -/

/-- The turn of one word, when the word overlaps the range of the group. -/
def rawTurn (document : Document) (transcript : AssetTranscript) (settings : SpeakerMulticamSettings) (s : Setup)
    (index : ℕ) (word : TranscriptWord) : Except SpeakerMulticamError (Option RawTurn) := do
  refuse (word.sourceStart < 0 ∨ word.sourceEnd ≤ word.sourceStart ∨ s.referenceAsset.duration < word.sourceEnd)
    (.invalidTranscriptWord index word.sourceStart word.sourceEnd)
  let mappedStart ← (mapFrames word.sourceStart transcript.sourceFps document.fps).mapError .timeMapping
  let mappedEnd ← (mapFrames word.sourceEnd transcript.sourceFps document.fps).mapError .timeMapping
  let start ← addOffset mappedStart s.reference.offset
  let stop ← addOffset mappedEnd s.reference.offset
  match intersect { start, stop } { start := settings.groupStart, stop := settings.groupEnd } with
  | none => .ok none
  | some intersection => do
    let speaker ← okOr (.missingSpeakerLabel index)
      ((word.speaker.map Text.trim).filter fun speaker => speaker ≠ "")
    let (angleKey, displaySpeaker) ← okOr (.unmappedSpeaker speaker)
      (s.assignments.get? (normalizedName lower speaker))
    let member ← okOr (.unknownAngle angleKey) (s.angles.get? angleKey)
    .ok (some
      { speakers := [displaySpeaker]
        angleKey
        angleName := member.angleName
        start := intersection.start
        stop := intersection.stop })

/-- The turn with another one of its angle. -/
def RawTurn.absorb (previous turn : RawTurn) : RawTurn :=
  { previous with
    stop := max previous.stop turn.stop
    speakers := previous.speakers.distinct turn.speakers }

/-- A word is joined to the last turn of its angle, or opens a turn. -/
def joinWord (gap : TimeCode) (turns : List RawTurn) (raw : RawTurn) : Except SpeakerMulticamError (List RawTurn) :=
  match turns.getLast? with
  | none => .ok (turns ++ [raw])
  | some previous => do
    let mergeLimit ← addOffset previous.stop gap
    .ok (if raw.start ≤ mergeLimit then turns.dropLast ++ [previous.absorb raw] else turns ++ [raw])

/-- The words of the transcript, joined. -/
def joinWords (document : Document) (transcript : AssetTranscript) (settings : SpeakerMulticamSettings) (s : Setup)
    (turns : KeyedMap String (List RawTurn)) :
    List (TranscriptWord × ℕ) → Except SpeakerMulticamError (KeyedMap String (List RawTurn))
  | [] => .ok turns
  | (word, index) :: words => do
    match ← rawTurn lower document transcript settings s index word with
    | none => joinWords document transcript settings s turns words
    | some raw => do
      let joined ← joinWord settings.maximumWordGapFrames ((turns.get? raw.angleKey).getD []) raw
      joinWords document transcript settings s (turns.insert raw.angleKey joined) words

/-- The turns in order: `(start, end, angle_key, speakers)`. -/
def sortTurns (turns : List RawTurn) : List RawTurn :=
  sortByKey (fun turn => toLex (turn.start.toInt, toLex (turn.stop.toInt, toLex (turn.angleKey, turn.speakers)))) turns

/-- The shot is long enough. -/
def isLong (minimum : TimeCode) (turn : RawTurn) : Bool :=
  (checkedSub turn.stop turn.start).any fun duration => minimum ≤ duration

/-- Turns of one angle in a row become one shot. -/
def retainTurn (retained : List RawTurn) (turn : RawTurn) : Except SpeakerMulticamError (List RawTurn) :=
  match retained.getLast? with
  | none => .ok (retained ++ [turn])
  | some previous =>
    if turn.start < previous.stop ∧ turn.angleKey ≠ previous.angleKey then .error (.overlappingSpeakers turn.start)
    else if turn.angleKey = previous.angleKey then .ok (retained.dropLast ++ [previous.absorb turn])
    else .ok (retained ++ [turn])

def retainTurns (retained : List RawTurn) : List RawTurn → Except SpeakerMulticamError (List RawTurn)
  | [] => .ok retained
  | turn :: turns => do
    let retained ← retainTurn retained turn
    retainTurns retained turns

/-- The shots, stretched to the middle of the silence after each one. -/
def coverTurns (groupEnd coverageStart : TimeCode) : List RawTurn → List RawTurn
  | [] => []
  | [turn] => [{ turn with start := coverageStart, stop := groupEnd }]
  | turn :: next :: turns =>
    let silence := saturatingSub next.start turn.stop
    let coverageEnd := saturatingAdd turn.stop (silence / 2)
    { turn with start := coverageStart, stop := coverageEnd } :: coverTurns groupEnd coverageEnd (next :: turns)

/-! ## Cuts -/

def cutOf (document : Document) (settings : SpeakerMulticamSettings) (angles : KeyedMap String SyncGroupMember)
    (turn : RawTurn) : Except SpeakerMulticamError SpeakerMulticamCut := do
  let member ← okOr (.unknownAngle turn.angleName) (angles.get? turn.angleKey)
  let asset ← okOr (.missingAsset member.asset) (document.asset member.asset)
  let angleProjectFrame ← okOr .timeOverflow (checkedSub turn.start member.offset)
  refuse (angleProjectFrame < 0) (.angleDoesNotCover member.angleName turn.start member.offset)
  let sourceIn ← (mapFrames angleProjectFrame document.fps asset.fps).mapError .timeMapping
  refuse (asset.duration ≤ sourceIn) (.angleDoesNotCover member.angleName turn.start member.offset)
  let recordOffset ← okOr .timeOverflow (checkedSub turn.start settings.groupStart)
  let timelineStart ← addOffset settings.recordStart recordOffset
  let shotDuration ← okOr .timeOverflow (checkedSub turn.stop turn.start)
  let timelineEnd ← addOffset timelineStart shotDuration
  .ok
    { speakers := turn.speakers
      angleName := turn.angleName
      asset := member.asset
      groupStart := turn.start
      groupEnd := turn.stop
      timelineStart
      timelineEnd
      sourceIn }

def cutsOf (document : Document) (settings : SpeakerMulticamSettings) (angles : KeyedMap String SyncGroupMember) :
    List RawTurn → Except SpeakerMulticamError (List SpeakerMulticamCut)
  | [] => .ok []
  | turn :: turns => do
    let cut ← cutOf document settings angles turn
    let cuts ← cutsOf document settings angles turns
    .ok (cut :: cuts)

/-- The overwrite of one cut. -/
def overwriteOf (track : TrackId) (cut : SpeakerMulticamCut) : Operation :=
  .threePointEdit track cut.asset
    { sourceIn := some cut.sourceIn
      sourceOut := none
      timelineIn := some cut.timelineStart
      timelineOut := some cut.timelineEnd } .overwrite

/-- `plan_speaker_multicam`. -/
def planSpeakerMulticam (document : Document) (transcript : AssetTranscript) (settings : SpeakerMulticamSettings) :
    Except SpeakerMulticamError SpeakerMulticamPlan := do
  let s ← setup lower document transcript settings
  let wordsByAngle ← joinWords lower document transcript settings s .empty transcript.words.zipIdx
  refuse (wordsByAngle.entries = []) .noSpeakerWords
  let turns := sortTurns (wordsByAngle.entries.flatMap fun entry => entry.2)
  let long := turns.filter (isLong settings.minimumShotFrames)
  refuse (long = []) .allShotsSuppressed
  let retained ← retainTurns [] long
  let cuts ← cutsOf document settings s.angles (coverTurns settings.groupEnd settings.groupStart retained)
  let operations := cuts.reverse.map (overwriteOf settings.targetTrack)
  let _ ← (applyBatch document operations).mapError .planNotApplicable
  .ok
    { syncGroup := settings.syncGroup
      targetTrack := settings.targetTrack
      referenceAsset := s.reference.asset
      groupStart := settings.groupStart
      groupEnd := settings.groupEnd
      recordStart := settings.recordStart
      suppressedShortShots := turns.length - long.length
      cuts
      operations }

end

end Kinewright.Multicam
