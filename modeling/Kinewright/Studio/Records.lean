import Kinewright.Lib.Text
import Kinewright.Bundle.Errors

/-!
# Studio records

`studio_records.rs`: snapshots of the project, feedback on them and runs that revise them, and the
commands that change what is recorded of these. The runs here are those of the first scheduler, and have
the names of the later one's records, which are in `Kinewright.Orchestration`.
-/

namespace Kinewright.Studio

open Fallible Json Bundle
open Accounting (RecordKind ObjectRef CommandId)
open Orchestration (ProjectId BranchId HeadId)

abbrev VersionId := String
abbrev CommentId := String
abbrev FeedbackBatchId := String
abbrev NoteId := String
abbrev RunId := String
abbrev TaskId := String
abbrev AttemptId := String
abbrev EffectId := String
abbrev DeliveryId := String
abbrev QuestionId := String
abbrev AgentThreadId := String
abbrev OpaqueRevision := String

/-! ## Snapshots -/

structure SnapshotKey where
  project : ProjectId
  version : VersionId
  head : HeadId
  documentHash : String
  inputManifestRef : ObjectRef
deriving DecidableEq

structure SnapshotDescriptor where
  key : SnapshotKey
  checkpointRef : ObjectRef
  documentRef : ObjectRef
  lineageRef : ObjectRef
  inputManifestRef : ObjectRef
  revisionRefs : List ObjectRef
  parentVersion : Option VersionId
  runProvenance : Option RunId
deriving DecidableEq

/-- `SnapshotDescriptor::references`. -/
def SnapshotDescriptor.references (descriptor : SnapshotDescriptor) : List ObjectRef :=
  [descriptor.checkpointRef, descriptor.documentRef, descriptor.lineageRef,
    descriptor.inputManifestRef] ++ descriptor.revisionRefs

structure PublishSnapshot where
  version : VersionId
  expectedHead : HeadId
  checkpointRef : ObjectRef
  parentVersion : Option VersionId
  runProvenance : Option RunId
  revisionRefs : List ObjectRef
deriving DecidableEq

/-! ## Feedback -/

structure FrameRate where
  numerator : UInt32
  denominator : UInt32
deriving DecidableEq

inductive Orientation
  | upright | rotate90 | rotate180 | rotate270
deriving DecidableEq

structure OccurrenceId where
  branchOrigin : BranchId
  creationBatchId : String
  resultOrdinal : UInt64
deriving DecidableEq

structure FeedbackTarget where
  localClipId : UInt64
  occurrenceId : Option OccurrenceId
  localFrame : Option Int
deriving DecidableEq

structure FeedbackAnchor where
  snapshot : SnapshotKey
  frame : Int
  fps : FrameRate
  rasterSize : UInt32 × UInt32
  orientation : Orientation
  target : Option FeedbackTarget
  sourceRef : Option ObjectRef
  scriptBeatId : Option String
deriving DecidableEq

structure AudioRange where
  startMicros : UInt64
  endMicros : UInt64
deriving DecidableEq

structure VoiceRef where
  noteId : NoteId
  audioRef : ObjectRef
  durationMicros : UInt64
  range : Option AudioRange
  playheadLogRef : Option ObjectRef
  originalAsrRef : Option ObjectRef
  chosenTranscriptRevision : Option ObjectRef
deriving DecidableEq

/-- `VoiceRef::matches_note`. -/
def VoiceRef.matchesNote (voice saved : VoiceRef) : Prop :=
  voice.audioRef = saved.audioRef ∧ voice.durationMicros = saved.durationMicros ∧
    voice.playheadLogRef = saved.playheadLogRef ∧
    ∀ reference ∈ voice.originalAsrRef, saved.originalAsrRef = some reference

instance (voice saved : VoiceRef) : Decidable (voice.matchesNote saved) := inferInstanceAs (Decidable (_ ∧ _))

/-- `voice_references`. -/
def VoiceRef.references (voice : VoiceRef) : List ObjectRef :=
  voice.audioRef :: voice.playheadLogRef.toList ++ voice.originalAsrRef.toList ++ voice.chosenTranscriptRevision.toList

structure FeedbackRevision where
  commentId : CommentId
  revision : UInt64
  predecessor : Option ObjectRef
  anchor : FeedbackAnchor
  originalTextRef : ObjectRef
  strokesRef : ObjectRef
  frameProofRef : ObjectRef
  voiceRef : Option VoiceRef
  transcriptRevision : Option ObjectRef
deriving DecidableEq

/-- `FeedbackRevision::references`. -/
def FeedbackRevision.references (revision : FeedbackRevision) : List ObjectRef :=
  [revision.anchor.snapshot.inputManifestRef, revision.originalTextRef, revision.strokesRef,
    revision.frameProofRef] ++ revision.predecessor.toList ++ revision.anchor.sourceRef.toList ++
    revision.transcriptRevision.toList ++ revision.voiceRef.toList.flatMap VoiceRef.references

/-- Proofs name the displayed identity and a pixel digest, never the pixels themselves. -/
def FRAME_PROOF_BYTES : UInt64 := 16 * 1024

structure FeedbackBatch where
  batchId : FeedbackBatchId
  revisionRefs : List ObjectRef
deriving DecidableEq

structure ReviseRequest where
  commandId : CommandId
  batchId : FeedbackBatchId
  expectedCandidateHead : HeadId
deriving DecidableEq

/-! ## Views of runs -/

inductive RunPhase
  | queued | running | reviewing | paused | interrupted | finished
deriving DecidableEq

structure OutcomeDetail where
  reason : String
  evidenceRefs : List ObjectRef
deriving DecidableEq

inductive RunOutcome
  | pending
  | ready
  | failed (detail : OutcomeDetail)
  | cancelled (detail : OutcomeDetail)
deriving DecidableEq

inductive ProviderWaitReason
  | rateLimit | authentication | approval | secret | capacity | unavailable | other
deriving DecidableEq

structure WaitDetail where
  reason : String
  providerReason : Option ProviderWaitReason
  attempt : Option AttemptId
  missingRefs : List ObjectRef
deriving DecidableEq

inductive RunWait
  | none
  | files (detail : WaitDetail)
  | provider (detail : WaitDetail)
  | question (question : QuestionId)
  | children (children : List TaskId)
deriving DecidableEq

inductive RunCleanup
  | settled
  | pending (identities : List String)
  | blocked (identities : List String) (reason : String)
deriving DecidableEq

inductive RunActionKind
  | pause | stop | continue | sendMessage
deriving DecidableEq

inductive AttemptState
  | reserved
  | owned
  | contained
  | executing
  | waiting
  | stopping
  | cleanupBlocked (identity : String)
  | retired (detail : OutcomeDetail)
deriving DecidableEq

inductive TaskState
  | queued
  | preparing
  | running (attempt : AttemptId)
  | waitingForQuestion (question : QuestionId)
  | waitingForChildren (children : List TaskId)
  | freezing
  | cancelling
  | cleanupBlocked (identity : String)
  | terminal (result : ObjectRef)
deriving DecidableEq

inductive EffectState
  | pending
  | claimed (attempt : AttemptId)
  | outcomeUnknown
  | settled
  | disposed
deriving DecidableEq

inductive EffectSafety
  | replaySafe | processBound | reconcileExternal
deriving DecidableEq

inductive DeliveryState
  | pending
  | offered (attempt : AttemptId) (messageId : String)
  | observed (run : RunId)
  | disposed
deriving DecidableEq

inductive RuntimeRequest
  | question (reference : ObjectRef)
  | approval (reference : ObjectRef)
  | secret (reference : ObjectRef)
deriving DecidableEq

def RuntimeRequest.reference : RuntimeRequest → ObjectRef
  | .question reference | .approval reference | .secret reference => reference

structure AttemptView where
  id : AttemptId
  state : AttemptState
  session : Option AgentThreadId
  turn : UInt64
  guardian : Option ObjectRef
deriving DecidableEq

structure EffectView where
  id : EffectId
  state : EffectState
  safety : EffectSafety
  recordRef : ObjectRef
deriving DecidableEq

structure DeliveryView where
  id : DeliveryId
  generation : UInt64
  state : DeliveryState
  resultRef : ObjectRef
deriving DecidableEq

structure TaskView where
  id : TaskId
  state : TaskState
  base : Option ObjectRef
  attempts : List AttemptView
  effects : List EffectView
  deliveries : List DeliveryView
  requests : List RuntimeRequest
  frozenResult : Option ObjectRef
  terminalResult : Option ObjectRef
deriving DecidableEq

structure Page (α : Type) where
  sequence : UInt64
  rows : List α
  next : Option String
deriving DecidableEq

structure ActiveTaskViews where
  focused : TaskId
  tasks : Page TaskView
deriving DecidableEq

structure AssumptionView where
  textRef : ObjectRef
  evidenceRefs : List ObjectRef
deriving DecidableEq

structure ReviewView where
  state : String
  evidenceRefs : List ObjectRef
deriving DecidableEq

structure RunView where
  runId : RunId
  sequence : UInt64
  controlRevision : OpaqueRevision
  phase : RunPhase
  outcome : RunOutcome
  wait : RunWait
  cleanup : RunCleanup
  allowedActions : List RunActionKind
  displayLabel : String
  currentTask : Option ActiveTaskViews
  completed : Page TaskView
  queued : Page TaskView
  assumptions : Page AssumptionView
  reviewState : ReviewView
deriving DecidableEq

/-- The references of an attempt's view. -/
def AttemptView.references (attempt : AttemptView) : List ObjectRef :=
  attempt.guardian.toList ++ match attempt.state with
    | .retired detail => detail.evidenceRefs
    | _ => []

/-- The references of a task's view. -/
def TaskView.references (task : TaskView) : List ObjectRef :=
  task.base.toList ++ task.frozenResult.toList ++ task.terminalResult.toList ++ (match task.state with
      | .terminal result => [result]
      | _ => []) ++
    task.attempts.flatMap AttemptView.references ++ task.effects.map EffectView.recordRef ++
    task.deliveries.map DeliveryView.resultRef ++ task.requests.map RuntimeRequest.reference

/-- The tasks of the view, page after page. -/
def RunView.tasks (view : RunView) : List TaskView :=
  view.completed.rows ++ view.queued.rows ++ view.currentTask.toList.flatMap fun active => active.tasks.rows

/-- `RunView::references`. -/
def RunView.references (view : RunView) : List ObjectRef :=
  view.reviewState.evidenceRefs ++ (match view.outcome with
      | .failed detail | .cancelled detail => detail.evidenceRefs
      | _ => []) ++
    (match view.wait with
      | .files detail | .provider detail => detail.missingRefs
      | _ => []) ++
    view.assumptions.rows.flatMap (fun assumption =>
      assumption.textRef :: assumption.evidenceRefs) ++
    view.tasks.flatMap TaskView.references

/-- A wait for children names some. -/
def RunWait.isVoid : RunWait → Bool
  | .children ids => decide (ids = [])
  | _ => false

def TaskState.isVoid : TaskState → Bool
  | .waitingForChildren ids => decide (ids = [])
  | _ => false

/-- A page is of the view's sequence and within the limits. -/
def checkPage {α : Type} (sequence : UInt64) (page : Page α) (error : BundleError) : Except BundleError Unit :=
  refuse (page.sequence ≠ sequence ∨ 200 < page.rows.length ∨ ∃ next ∈ page.next, 256 < next.utf8ByteSize) error

/-- The check of a page of tasks. -/
def checkTasks (sequence : UInt64) (page : Page TaskView) : Except BundleError Unit := do
  checkPage sequence page (.capacity "run page bound/sequence")
  refuse (∃ task ∈ page.rows, task.state.isVoid = true) (.corrupt "run task children")

/-- `RunView::validate`. Shape and resource validation only. -/
def RunView.validate (bytes : RunView → ℕ) (view : RunView) : Except BundleError Unit := do
  refuse (view.sequence = 0 ∨ Text.isBlank view.controlRevision = true ∨
    256 < view.controlRevision.utf8ByteSize ∨ 16384 < view.displayLabel.utf8ByteSize ∨
    4 < view.allowedActions.length) (.capacity "run projection identity/label/actions")
  refuse (¬ view.allowedActions.Nodup ∨ view.wait.isVoid = true) (.corrupt "run projection actions/children")
  all (checkTasks view.sequence) ([view.completed, view.queued] ++ view.currentTask.toList.map ActiveTaskViews.tasks)
  checkPage view.sequence view.assumptions (.capacity "run assumptions page")
  bounded (bytes view) (8 * 1024 * 1024)

structure RunRecord where
  runId : RunId
  projection : RunView
  snapshotRefs : List ObjectRef
  eventSegmentRefs : List ObjectRef
  effectRefs : List ObjectRef
  requestRefs : List ObjectRef
  deliveryRefs : List ObjectRef
  resultRefs : List ObjectRef
  usageRefs : List ObjectRef
deriving DecidableEq

/-- The references of a run to its records, by their kinds. -/
def RunRecord.records (run : RunRecord) : List (RecordKind × List ObjectRef) :=
  [(.runSnapshot, run.snapshotRefs), (.runEventSegment, run.eventSegmentRefs),
    (.runEffect, run.effectRefs), (.runRequest, run.requestRefs), (.runDelivery, run.deliveryRefs),
    (.runResult, run.resultRefs), (.runUsage, run.usageRefs)]

/-- `RunRecord::references`. -/
def RunRecord.references (run : RunRecord) : List ObjectRef :=
  run.records.flatMap Prod.snd ++ run.projection.references

end Kinewright.Studio
