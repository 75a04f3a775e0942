import Mathlib.Data.Finset.Card
import Kinewright.Accounting.Record

/-!
# Orchestration records

`orchestration_records.rs`: a run with its tasks, their effects, deliveries and questions, and the
commands that are sent to it. What a value is serialized as is not modelled, only how long it is.
-/

namespace Kinewright.Orchestration

open Fallible Json Accounting

def COMMAND_BYTES : ℕ := 256 * 1024
def CONTROL_BYTES : ℕ := 64 * 1024 * 1024
def TASK_LIMIT : ℕ := 128
def ITEM_LIMIT : ℕ := 256
def ATTEMPT_LIMIT : ℕ := 3
def BACKGROUND_LIMIT : ℕ := 256

abbrev SessionId := String
abbrev ProjectId := String
abbrev BranchId := String
abbrev HeadId := String
abbrev RunId := String
abbrev TaskId := String
abbrev AttemptId := String
abbrev EffectId := String
abbrev DeliveryId := String
abbrev QuestionId := String
abbrev StableMessageId := String
abbrev EndpointId := String
abbrev OpaqueRevision := String
abbrev CommandDigest := String

inductive Refusal
  | unsupported
  | capacity
  | scopeConflict
  | staleGeneration
  | staleControl
  | invalidState
  | unknown
  | retiredUnresolved
  | unresolvedOrigin
  | publicationUnknown
  | dependencyCapacity
  | h3AttentionUnavailable
deriving DecidableEq

/-- `u64::checked_add(1)`, or the refusal for capacity. -/
def checkedSucc (n : ℕ) : Except Refusal ℕ := if n + 1 < 2 ^ 64 then .ok (n + 1) else .error .capacity

/-! ## References -/

/-- `RecordKind::supported`. -/
def supported : RecordKind → Bool
  | .creationBrief | .claimIndex | .takeMap | .takeEvidence | .code | .external | .personMatte => false
  | _ => true

/-- `RecordKind::is_blob`. -/
def isBlob : RecordKind → Bool
  | .rootCheckpoint | .ownedMedia | .ownedFont | .ownedNotice | .ownedLut | .ownedScript | .ownedData
  | .ownedStyle | .ownedReference | .ownedEvidence => true
  | _ => false

/-- `RecordKind::is_owned_bytes`. -/
def isOwnedBytes (kind : RecordKind) : Bool := isBlob kind && decide (kind ≠ .rootCheckpoint)

/-- `validate_reference`. -/
def validateReference (reference : ObjectRef) : Except Refusal Unit := do
  refuse (reference.sha256.utf8ByteSize ≠ 64 ∨ (utf8 reference.sha256).all isLowerHex = false ∨
    (CONTROL_BYTES < reference.byteLength.toNat ∧ isOwnedBytes reference.recordKind = false))
    .invalidState
  refuse (supported reference.recordKind = false ∧ reference.recordKind ≠ .runIndex) .unsupported

/-! ## Briefs -/

inductive Role
  | director | editor | motion | audio | colour | reviewer
deriving DecidableEq

structure BranchBinding where
  branch : BranchId
  head : HeadId
  checkpoint : ObjectRef
  documentHash : String
deriving DecidableEq

structure TaskScope where
  operations : Finset String
  objects : Finset String
  fields : Finset String
  tracks : Finset String
  busSidechainClosure : Finset String
  assetRoots : List ObjectRef
  base : BranchBinding
  consentRefs : List ObjectRef
deriving DecidableEq

structure ProviderSelectionRecord where
  connector : String
  model : String
  options : List (String × String)
deriving DecidableEq

structure TaskBrief where
  plan : ObjectRef
  script : ObjectRef
  inputs : ObjectRef
  assignment : ObjectRef
  role : Role
  provider : ProviderSelectionRecord
  scope : TaskScope
deriving DecidableEq

/-- The branch that the task works on, which is the lane of its effects. -/
def TaskBrief.branch (brief : TaskBrief) : BranchId := brief.scope.base.branch

/-! ## Attempts -/

structure CleanupIdentity where
  attempt : AttemptId
  ownerInstance : SessionId
  nonce : SessionId
  recoveryRef : ObjectRef
deriving DecidableEq

structure ExecutionIdentity where
  version : ℕ
  project : ProjectId
  run : RunId
  task : TaskId
  attempt : AttemptId
  nonce : SessionId
  ownerInstance : SessionId
deriving DecidableEq

inductive AttemptOutcome
  | completed | failed | cancelled | interrupted
deriving DecidableEq

inductive AttemptState
  | reserved
  | owned
  | contained
  | executing
  | waiting
  | stopping
  | cleanupBlocked (identity : CleanupIdentity)
  | retired (outcome : AttemptOutcome)
deriving DecidableEq

/-- The attempt is over. -/
def AttemptState.isRetired : AttemptState → Bool
  | .retired _ => true
  | _ => false

/-- Its cleanup is blocked. -/
def AttemptState.isBlocked : AttemptState → Bool
  | .cleanupBlocked _ => true
  | _ => false

/-- It can neither work nor be given work. -/
def AttemptState.isClosed : AttemptState → Bool
  | .stopping | .cleanupBlocked _ | .retired _ => true
  | _ => false

structure AttemptReservation where
  identity : ExecutionIdentity
  ownerEpoch : ℕ
  state : AttemptState
  recoveryRef : ObjectRef
deriving DecidableEq

/-- What must be cleaned up after the attempt. -/
def AttemptReservation.cleanupIdentity (reservation : AttemptReservation) : CleanupIdentity where
  attempt := reservation.identity.attempt
  ownerInstance := reservation.identity.ownerInstance
  nonce := reservation.identity.nonce
  recoveryRef := reservation.recoveryRef

/-! ## Tasks -/

inductive TaskState
  | queued
  | preparing
  | running (attempt : AttemptId)
  | waitingForQuestion (question : QuestionId)
  | waitingForChildren (children : List TaskId)
  | freezing
  | cancelling
  | cleanupBlocked (identity : CleanupIdentity)
  | terminal (result : ObjectRef)
  | cancelled
deriving DecidableEq

namespace TaskState

/-- The task has ended: its state is never left. -/
def isDone : TaskState → Bool
  | .terminal _ | .cancelled => true
  | _ => false

/-- The task has ended or is being cancelled. -/
def isCancelledOrDone : TaskState → Bool
  | .terminal _ | .cancelled | .cancelling => true
  | _ => false

/-- The task cannot work any more, or not until its cleanup. -/
def isClosed : TaskState → Bool
  | .terminal _ | .cancelled | .cancelling | .cleanupBlocked _ => true
  | _ => false

/-- What the cleanup of the task is blocked at. -/
def cleanup? : TaskState → Option CleanupIdentity
  | .cleanupBlocked identity => some identity
  | _ => none

/-- The result of the task. -/
def result? : TaskState → Option ObjectRef
  | .terminal result => some result
  | _ => none

/-- The children that the task waits for. -/
def children? : TaskState → Option (List TaskId)
  | .waitingForChildren children => some children
  | _ => none

end TaskState

inductive TurnPurpose
  | work | questionAttention
deriving DecidableEq

structure TaskTurn where
  task : TaskId
  attempt : AttemptId
  session : SessionId
  ordinal : ℕ
  ownerEpoch : ℕ
  expectedHead : HeadId
  purpose : TurnPurpose
deriving DecidableEq

inductive DependencyReservation
  | free
  | reserved
  | backed (attempt : AttemptId)
deriving DecidableEq

/-- The attempt that backs the reservation. -/
def DependencyReservation.backed? : DependencyReservation → Option AttemptId
  | .backed attempt => some attempt
  | _ => none

structure TaskProgress where
  capacity : DependencyReservation
  turn : Option TaskTurn
  turnEnded : Bool
  expired : Bool
  background : ℕ
  feedback : List ObjectRef
  decisions : List ObjectRef
deriving DecidableEq

/-- The progress of a task that was just made, with a slot reserved for it. -/
def TaskProgress.new : TaskProgress where
  capacity := .reserved
  turn := none
  turnEnded := false
  expired := false
  background := 0
  feedback := []
  decisions := []

structure TaskRecord where
  id : TaskId
  parent : Option TaskId
  brief : TaskBrief
  state : TaskState
  progress : TaskProgress
deriving DecidableEq

/-! ## Effects, deliveries and questions -/

inductive EffectState
  | pending
  | claimed (attempt : AttemptId)
  | outcomeUnknown
  | settled
  | disposed
deriving DecidableEq

/-- The effect is over. -/
def EffectState.isFinished : EffectState → Bool
  | .settled | .disposed => true
  | _ => false

inductive EffectSafety
  | replaySafe | processBound | reconcileExternal
deriving DecidableEq

structure EffectRecord where
  id : EffectId
  task : TaskId
  lane : BranchId
  order : ℕ
  safety : EffectSafety
  state : EffectState
  payload : ObjectRef
deriving DecidableEq

inductive DeliveryState
  | pending
  | offered (attempt : AttemptId) (message : StableMessageId)
  | observed (run : RunId)
  | disposed
deriving DecidableEq

/-- The delivery has been observed. -/
def DeliveryState.isObserved : DeliveryState → Bool
  | .observed _ => true
  | _ => false

/-- The delivery is over. -/
def DeliveryState.isFinished : DeliveryState → Bool
  | .observed _ | .disposed => true
  | _ => false

structure DeliveryRecord where
  id : DeliveryId
  task : TaskId
  result : ObjectRef
  generation : ℕ
  wake : EffectId
  message : StableMessageId
  state : DeliveryState
deriving DecidableEq

inductive QuestionStatus
  | pending
  | answered (answer : ObjectRef)
  | expired
  | cancelled
deriving DecidableEq

inductive QuestionWake
  | pending | admitted | executed | disposed
deriving DecidableEq

structure QuestionRecord where
  id : QuestionId
  task : TaskId
  prompt : ObjectRef
  origin : TaskTurn
  status : QuestionStatus
  wake : QuestionWake
deriving DecidableEq

structure AttentionReference where
  task : TaskId
  attempt : AttemptId
  requestRef : ObjectRef
deriving DecidableEq

inductive RuntimeRequest
  | question (question : QuestionRecord)
  | approval (attention : AttentionReference)
  | secret (attention : AttentionReference)
deriving DecidableEq

/-- The question of a request, if it is one. -/
def RuntimeRequest.question? : RuntimeRequest → Option QuestionRecord
  | .question asked => some asked
  | _ => none

/-! ## Runs -/

structure OutcomeDetail where
  code : String
  detailRef : Option ObjectRef
deriving DecidableEq

inductive RunPhase
  | queued | running | reviewing | paused | interrupted | finished
deriving DecidableEq

inductive RunOutcome
  | pending
  | ready
  | failed (detail : OutcomeDetail)
  | cancelled (detail : OutcomeDetail)
deriving DecidableEq

structure WaitDetail where
  reason : ObjectRef
  missing : List ObjectRef
  attempt : Option AttemptId
deriving DecidableEq

inductive RunWait
  | none
  | files (detail : WaitDetail)
  | provider (detail : WaitDetail)
  | question (question : QuestionId)
  | children (children : List TaskId)
deriving DecidableEq

/-- The children that the run waits for. -/
def RunWait.children? : RunWait → Option (List TaskId)
  | .children ids => some ids
  | _ => .none

inductive RunCleanup
  | settled
  | pending (identities : List CleanupIdentity)
  | blocked (identities : List CleanupIdentity) (reason : ObjectRef)
deriving DecidableEq

structure RunProjection where
  run : RunId
  sequence : ℕ
  controlRevision : OpaqueRevision
  phase : RunPhase
  outcome : RunOutcome
  wait : RunWait
  cleanup : RunCleanup
  tasks : List TaskRecord
  effects : List EffectRecord
  attempts : List AttemptReservation
  deliveries : List DeliveryRecord
  requests : List RuntimeRequest
  results : List ObjectRef
  usage : List ObjectRef
deriving DecidableEq

/-! ## Commands -/

structure AuthorityBinding where
  grantRef : ObjectRef
  ownerEpoch : ℕ
  endpoint : Option EndpointId
  attempt : Option AttemptId
deriving DecidableEq

inductive RunAction
  | pause
  | stop
  | continue
  | sendMessage (textRef : ObjectRef)
deriving DecidableEq

structure RunIntent where
  commandId : CommandId
  runId : RunId
  expectedControlRevision : OpaqueRevision
  action : RunAction
deriving DecidableEq

structure TaskResult where
  outcome : AttemptOutcome
  base : Option BranchBinding
  head : Option BranchBinding
  deltaRef : Option ObjectRef
  artifacts : List ObjectRef
  evidence : List ObjectRef
  usageRef : ObjectRef
  explanation : ObjectRef
deriving DecidableEq

structure AssignTask where
  run : RunId
  parent : TaskId
  brief : TaskBrief
deriving DecidableEq

inductive OrchestrationCommand
  | startRun (director : TaskBrief)
  | assignTask (assignment : AssignTask)
  | freezeTask (task : TaskId)
  | publishResult (task : TaskId) (result : TaskResult)
  | observeDelivery (delivery : DeliveryId)
  | answerQuestion (question : QuestionId) (answer : ObjectRef)
  | cancelTask (task : TaskId)
  | mergeTask (task : TaskId) (target : BranchBinding) (result : ObjectRef)
  | controlRun (intent : RunIntent)
  | beginTurn (turn : TaskTurn)
  | endTurn (turn : TaskTurn)
  | backgroundWork (turn : TaskTurn) (count : ℕ)
  | settleExpiredBackground (turn : TaskTurn)
  | request (request : RuntimeRequest)
  | admitQuestionWake (question : QuestionId)
  | executeQuestionWake (question : QuestionId)
  | expireSession (session : SessionId)
  | offerDeliveries (parent : TaskId) (attempt : AttemptId)
  | waitTimeout (task : TaskId)
  | recordContext (task : TaskId) (feedback decisions : List ObjectRef)
deriving DecidableEq

structure OrchestrationEnvelope where
  id : CommandId
  digest : CommandDigest
  project : ProjectId
  expectedGeneration : ℕ
  authority : AuthorityBinding
  command : OrchestrationCommand
deriving DecidableEq

structure OrchestrationEvent where
  command : CommandId
  sequence : ℕ
  projection : RunProjection
deriving DecidableEq

structure EventSegment where
  run : RunId
  firstSequence : ℕ
  previous : Option ObjectRef
  events : List OrchestrationEvent
deriving DecidableEq

/-! ## Encoding -/

/-- What the serializer and the hash give: the lengths of what is written, and the digests and the
identities that are read back from them. -/
structure Encoding where
  scopedBytes : CommandId → ProjectId → ℕ → AuthorityBinding → OrchestrationCommand → ℕ
  digest : CommandId → ProjectId → ℕ → AuthorityBinding → OrchestrationCommand → CommandDigest
  envelopeBytes : OrchestrationEnvelope → ℕ
  identity : CommandDigest → String → SessionId
  executionBytes : ExecutionIdentity → ℕ
  briefBytes : TaskBrief → ℕ
  projectionBytes : RunProjection → ℕ
  snapshotBytes : RunProjection → ℕ
  segmentBytes : EventSegment → ℕ
  resultBytes : TaskResult → ℕ
  resultDigest : TaskResult → String
  cutBytes : OrchestrationEnvelope → RunProjection → EventSegment → Finset ObjectRef → ℕ

/-- `encoded`, of which only the limit is left. -/
def encoded (bytes limit : ℕ) : Except Refusal Unit := refuse (limit < bytes) .capacity

variable (enc : Encoding)

/-- `ExecutionIdentity::validate`. -/
def ExecutionIdentity.validate (identity : ExecutionIdentity) : Except Refusal Unit := do
  refuse (identity.version ≠ 1) .unsupported
  encoded (enc.executionBytes identity) 1024

namespace OrchestrationEnvelope

/-- `computed_digest`: it includes the epoch, the generation, the scope and the action. -/
def computedDigest (envelope : OrchestrationEnvelope) : Except Refusal CommandDigest := do
  encoded (enc.scopedBytes envelope.id envelope.project envelope.expectedGeneration envelope.authority
    envelope.command) COMMAND_BYTES
  return enc.digest envelope.id envelope.project envelope.expectedGeneration envelope.authority envelope.command

/-- The intent of a control command is about this envelope. -/
def namesItself (envelope : OrchestrationEnvelope) : Bool :=
  match envelope.command with
  | .controlRun intent => decide (intent.commandId = envelope.id)
  | _ => true

/-- `OrchestrationEnvelope::validate`. -/
def validate (envelope : OrchestrationEnvelope) : Except Refusal Unit := do
  refuse (envelope.id.sequence = 0) .scopeConflict
  let digest ← envelope.computedDigest enc
  refuse (envelope.digest ≠ digest) .scopeConflict
  refuse (envelope.namesItself = false) .scopeConflict
  encoded (enc.envelopeBytes envelope) COMMAND_BYTES

/-- `OrchestrationEnvelope::identity`, of an envelope that was validated. -/
def identity (envelope : OrchestrationEnvelope) (domain : String) : SessionId := enc.identity envelope.digest domain

end OrchestrationEnvelope

end Kinewright.Orchestration
