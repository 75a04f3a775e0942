import Kinewright.Orchestration.Records

/-!
# Validation of a run before it is published

`orchestration_commit.rs`: a projection is checked against itself, and what is published with it is
checked against the envelope that asked for it.
-/

namespace Kinewright.Orchestration

open Fallible Accounting

namespace RunProjection

variable (s : RunProjection)

def taskIds : List TaskId := s.tasks.map TaskRecord.id

def task? (id : TaskId) : Option TaskRecord := s.tasks.find? fun task => task.id = id

/-- The attempts that are not over. -/
def live : List AttemptReservation := s.attempts.filter fun reservation => !reservation.state.isRetired

/-- The task has an attempt that is not over. -/
def hasLive (task : TaskId) : Bool :=
  s.attempts.any fun reservation =>
    decide (reservation.identity.task = task) && !reservation.state.isRetired

/-- `dependency_slots`: the attempts that are not over and the tasks that wait for one. -/
def dependencySlots : ℕ :=
  s.live.length + (s.tasks.filter fun task =>
    decide (task.progress.capacity = .reserved) && !s.hasLive task.id).length

/-- What must be cleaned up. -/
def required : List CleanupIdentity := s.live.map AttemptReservation.cleanupIdentity

/-- An attempt or a task is blocked in its cleanup. -/
def isBlocked : Bool :=
  s.attempts.any (fun reservation => reservation.state.isBlocked) || s.tasks.any fun task => task.state.cleanup?.isSome

/-- The questions of the run. -/
def questions : List QuestionRecord := s.requests.filterMap RuntimeRequest.question?

/-- The parent of a task. -/
def parentOf (id : TaskId) : Option TaskId := (s.task? id).bind TaskRecord.parent

end RunProjection

/-! ## Cleanup -/

/-- `same_cleanup_set`. -/
def sameCleanupSet (required actual : List CleanupIdentity) : Except Refusal Unit :=
  refuse (required.length ≠ actual.length ∨ ∃ identity ∈ required, actual.count identity ≠ 1)
    .invalidState

/-- What an attempt says of its own blocked cleanup is about itself. -/
def checkBlockedAttempt (reservation : AttemptReservation) : Except Refusal Unit :=
  match reservation.state with
  | .cleanupBlocked detail => refuse (detail ≠ reservation.cleanupIdentity) .scopeConflict
  | _ => .ok ()

/-- What a task says of its blocked cleanup is about an attempt of its own. -/
def checkBlockedTask (s : RunProjection) (task : TaskRecord) : Except Refusal Unit :=
  match task.state with
  | .cleanupBlocked identity =>
    refuse (identity ∉ s.required ∨ ¬ ∃ reservation ∈ s.attempts,
      reservation.identity.attempt = identity.attempt ∧ reservation.identity.task = task.id)
      .scopeConflict
  | _ => .ok ()

/-- The summary of the cleanup says what there is to clean up, and whether it is blocked. -/
def checkCleanupSummary (s : RunProjection) : Except Refusal Unit :=
  match s.cleanup with
  | .settled => refuse (s.required ≠ [] ∨ s.isBlocked = true) .invalidState
  | .pending identities =>
    if s.required = [] ∨ s.isBlocked = true then .error .invalidState
    else sameCleanupSet s.required identities
  | .blocked identities _ =>
    if s.required = [] ∨ s.isBlocked = false then .error .invalidState
    else sameCleanupSet s.required identities

/-- `validate_cleanup`. -/
def validateCleanup (s : RunProjection) : Except Refusal Unit := do
  all checkBlockedAttempt s.attempts
  all (checkBlockedTask s) s.tasks
  checkCleanupSummary s

/-! ## Projections -/

variable (enc : Encoding)

/-- The limits on the numbers of records. -/
def checkCounts (s : RunProjection) : Except Refusal Unit := do
  refuse (TASK_LIMIT < s.tasks.length ∨ ATTEMPT_LIMIT < s.attempts.length ∨
    ITEM_LIMIT < s.effects.length ∨ ITEM_LIMIT < s.deliveries.length ∨
    ITEM_LIMIT < s.requests.length ∨ ITEM_LIMIT < s.results.length ∨ ITEM_LIMIT < s.usage.length)
    .capacity
  refuse (ATTEMPT_LIMIT < s.dependencySlots) .dependencyCapacity

/-- `validate_attempt_ids`. -/
def validateAttemptIds (s : RunProjection) : Except Refusal Unit :=
  refuse (¬ (s.attempts.map fun reservation => reservation.identity.attempt).Nodup) .invalidState

/-- Every task is there once, and every record is about one that is. -/
def checkTaskIds (s : RunProjection) : Except Refusal Unit :=
  refuse (¬ s.taskIds.Nodup ∨ (∃ task ∈ s.tasks, ∃ parent ∈ task.parent, parent ∉ s.taskIds) ∨
    (∃ effect ∈ s.effects, effect.task ∉ s.taskIds) ∨
    ∃ delivery ∈ s.deliveries, delivery.task ∉ s.taskIds) .invalidState

/-- The loop over the ancestors of a task, which must not come back to one of them. -/
def ancestorsEnd (s : RunProjection) (task : TaskId) : ℕ → List TaskId → Option TaskId → Bool
  | _, _, none => true
  | 0, _, some _ => false
  | fuel + 1, ancestors, some id => if id = task ∨ id ∈ ancestors then false
    else ancestorsEnd s task fuel (id :: ancestors) (s.parentOf id)

/-- One task of `validate_projection`. A task has fewer ancestors than there are tasks. -/
def checkTask (s : RunProjection) (task : TaskRecord) : Except Refusal Unit := do
  refuse (∃ id ∈ task.progress.capacity.backed?, ¬ ∃ reservation ∈ s.attempts,
    reservation.identity.task = task.id ∧ reservation.identity.attempt = id) .scopeConflict
  refuse (task.progress.expired = true ∧ task.progress.turnEnded = true) .invalidState
  refuse ((∃ turn ∈ task.progress.turn, turn.task ≠ task.id ∨ turn.ordinal = 0 ∨
    turn.expectedHead ≠ task.brief.scope.base.head) ∨
    BACKGROUND_LIMIT < task.progress.background ∨ ITEM_LIMIT < task.progress.feedback.length ∨
    ITEM_LIMIT < task.progress.decisions.length) .invalidState
  refuse (ancestorsEnd s task.id s.tasks.length [] task.parent = false) .invalidState

/-- Every question is there once, and is about the task of its turn. -/
def checkQuestions (s : RunProjection) : Except Refusal Unit :=
  refuse (¬ (s.questions.map QuestionRecord.id).Nodup ∨
    ∃ question ∈ s.questions, question.task ≠ question.origin.task ∨ question.task ∉ s.taskIds)
    .invalidState

/-- One attempt of `validate_projection`. -/
def checkAttempt (s : RunProjection) (reservation : AttemptReservation) : Except Refusal Unit := do
  reservation.identity.validate enc
  refuse (reservation.identity.run ≠ s.run ∨ reservation.identity.task ∉ s.taskIds) .scopeConflict

/-- Effects, their places in their lanes and deliveries are distinct. -/
def checkEffects (s : RunProjection) : Except Refusal Unit :=
  refuse (¬ (s.effects.map EffectRecord.id).Nodup ∨ ¬ (s.effects.map fun effect => (effect.lane, effect.order)).Nodup ∨
    ¬ (s.deliveries.map DeliveryRecord.id).Nodup) .invalidState

/-- The children that are waited for. -/
def badChildren (s : RunProjection) (children : List TaskId) : Bool :=
  decide (children = []) || decide (TASK_LIMIT < children.length) || children.any fun id => decide (id ∉ s.taskIds)

/-- What is waited for is there. -/
def checkWaits (s : RunProjection) : Except Refusal Unit :=
  refuse ((∃ children ∈ s.wait.children?, badChildren s children = true) ∨
    ∃ task ∈ s.tasks, ∃ children ∈ task.state.children?, badChildren s children = true)
    .invalidState

/-- A run that is ready has nothing left to do. -/
def checkReady (s : RunProjection) : Except Refusal Unit :=
  refuse (s.outcome = .ready ∧ (s.phase ≠ .finished ∨ s.cleanup ≠ .settled ∨ s.wait ≠ .none ∨
    (∃ task ∈ s.tasks, task.state.result? = none ∧ ¬ (task.parent ≠ none ∧ task.state = .cancelled)) ∨
    (∃ effect ∈ s.effects, effect.state.isFinished = false) ∨
    (∃ delivery ∈ s.deliveries, delivery.state.isFinished = false) ∨
    ∃ request ∈ s.requests, ∀ question ∈ request.question?, question.status = .pending))
    .invalidState

/-- `validate_projection`, without the limit on the bytes. -/
def checkShape (s : RunProjection) : Except Refusal Unit := do
  validateAttemptIds s
  validateCleanup s
  checkTaskIds s
  all (checkTask s) s.tasks
  checkQuestions s
  all (checkAttempt enc s) s.attempts
  checkEffects s
  checkWaits s
  checkReady s

/-- `validate_projection`. -/
def validateProjection (s : RunProjection) : Except Refusal Unit := do
  checkCounts s
  encoded (enc.projectionBytes s) CONTROL_BYTES
  checkShape enc s

/-! ## References -/

/-- The limits on a set of names in a scope. -/
def badNames (names : Finset String) : Prop := ITEM_LIMIT < names.card ∨ ∃ name ∈ names, 256 < name.utf8ByteSize

instance (names : Finset String) : Decidable (badNames names) := inferInstanceAs (Decidable (_ ∨ _))

/-- The checks of `brief_refs`. -/
def checkBrief (brief : TaskBrief) : Except Refusal Unit := do
  encoded (enc.briefBytes brief) COMMAND_BYTES
  refuse (badNames brief.scope.operations ∨ badNames brief.scope.objects ∨
    badNames brief.scope.fields ∨ badNames brief.scope.tracks ∨
    badNames brief.scope.busSidechainClosure) .capacity
  refuse (ITEM_LIMIT < brief.scope.assetRoots.length ∨ ITEM_LIMIT < brief.scope.consentRefs.length ∨
    64 < brief.provider.options.length) .capacity
  refuse (brief.scope.base.checkpoint.recordKind ≠ .branchCheckpoint ∨
    brief.inputs.recordKind ≠ .inputManifest) .invalidState

/-- `brief_refs`. -/
def TaskBrief.refs (brief : TaskBrief) : List ObjectRef :=
  [brief.plan, brief.script, brief.inputs, brief.assignment, brief.scope.base.checkpoint] ++
    brief.scope.assetRoots ++ brief.scope.consentRefs

/-- `request_refs`. -/
def RuntimeRequest.refs : RuntimeRequest → List ObjectRef
  | .question asked => match asked.status with
      | .answered answer => [answer, asked.prompt]
      | _ => [asked.prompt]
  | .approval attention | .secret attention => [attention.requestRef]

/-- The references of a task. -/
def TaskRecord.refs (task : TaskRecord) : List ObjectRef :=
  task.brief.refs ++ task.progress.feedback ++ task.progress.decisions ++ match task.state with
    | .terminal result => [result]
    | .cleanupBlocked cleanup => [cleanup.recoveryRef]
    | _ => []

/-- The references of an attempt. -/
def AttemptReservation.refs (reservation : AttemptReservation) : List ObjectRef :=
  reservation.recoveryRef :: match reservation.state with
    | .cleanupBlocked cleanup => [cleanup.recoveryRef]
    | _ => []

def RunOutcome.refs : RunOutcome → List ObjectRef
  | .failed detail | .cancelled detail => detail.detailRef.toList
  | _ => []

def RunWait.refs : RunWait → List ObjectRef
  | .files detail | .provider detail => detail.reason :: detail.missing
  | _ => []

def RunCleanup.refs : RunCleanup → List ObjectRef
  | .settled => []
  | .pending identities => identities.map CleanupIdentity.recoveryRef
  | .blocked identities reason => identities.map CleanupIdentity.recoveryRef ++ [reason]

/-- The references that `projection_refs` collects. -/
def RunProjection.refs (s : RunProjection) : List ObjectRef :=
  s.tasks.flatMap TaskRecord.refs ++ s.effects.map EffectRecord.payload ++
    s.deliveries.map DeliveryRecord.result ++ s.attempts.flatMap AttemptReservation.refs ++
    s.requests.flatMap RuntimeRequest.refs ++ s.results ++ s.usage ++ s.outcome.refs ++
    s.wait.refs ++ s.cleanup.refs

/-- `projection_refs`. -/
def projectionRefs (s : RunProjection) : Except Refusal (List ObjectRef) := do
  validateProjection enc s
  all (fun task => checkBrief enc task.brief) s.tasks
  return s.refs

/-- `OrchestrationRecord::dependencies` of a snapshot. -/
def snapshotDependencies (s : RunProjection) : Except Refusal (List ObjectRef) := do
  encoded (enc.snapshotBytes s) CONTROL_BYTES
  let refs ← projectionRefs enc s
  all validateReference refs
  return refs

/-- The events of a segment, each with the sequence after the one before it. -/
def eventRefs (run : RunId) (sequence : ℕ) : List OrchestrationEvent → Except Refusal (List ObjectRef)
  | [] => .ok []
  | event :: events => do
    refuse (2 ^ 64 ≤ sequence ∨ event.sequence ≠ sequence ∨
      event.sequence ≠ event.projection.sequence ∨ event.projection.run ≠ run) .invalidState
    let refs ← projectionRefs enc event.projection
    let rest ← eventRefs run (sequence + 1) events
    return refs ++ rest

/-- `OrchestrationRecord::dependencies` of an event segment. -/
def segmentDependencies (segment : EventSegment) : Except Refusal (List ObjectRef) := do
  encoded (enc.segmentBytes segment) CONTROL_BYTES
  refuse (segment.firstSequence = 0 ∨ (1 < segment.firstSequence ∧ segment.previous = none))
    .invalidState
  refuse (segment.events = [] ∨ TASK_LIMIT < segment.events.length) .capacity
  refuse (∃ previous ∈ segment.previous, previous.recordKind ≠ .runIndex) .invalidState
  let events ← eventRefs enc segment.run segment.firstSequence segment.events
  let refs := segment.previous.toList ++ events
  all validateReference refs
  return refs

/-! ## Updates -/

inductive RecordedRefusal
  | unsupported | capacity | staleControl | invalidState
deriving DecidableEq

inductive CommandDecision
  | applied
  | refused (reason : RecordedRefusal)
deriving DecidableEq

/-- `ValidatedRunUpdate`, with the receipt's generation and decision. -/
structure ValidatedRunUpdate where
  envelope : OrchestrationEnvelope
  projection : RunProjection
  segment : EventSegment
  dependencies : Finset ObjectRef
  generation : ℕ
  decision : CommandDecision

/-- The segment ends with the event of this envelope and this projection. -/
def EventSegment.endsWith (segment : EventSegment) (envelope : OrchestrationEnvelope)
    (projection : RunProjection) : Prop :=
  segment.run = projection.run ∧ ∃ event ∈ segment.events.getLast?,
    event.projection = projection ∧ event.command = envelope.id

instance (segment : EventSegment) (envelope : OrchestrationEnvelope) (projection : RunProjection) :
    Decidable (segment.endsWith envelope projection) :=
  inferInstanceAs (Decidable (_ ∧ _))

/-- `ValidatedRunUpdate::new`. -/
def ValidatedRunUpdate.new (project : ProjectId) (generation : ℕ) (envelope : OrchestrationEnvelope)
    (projection : RunProjection) (segment : EventSegment) (decision : CommandDecision) :
    Except Refusal ValidatedRunUpdate := do
  envelope.validate enc
  refuse (envelope.project ≠ project) .scopeConflict
  refuse (envelope.expectedGeneration ≠ generation) .staleGeneration
  validateProjection enc projection
  let snapshot ← snapshotDependencies enc projection
  let events ← segmentDependencies enc segment
  refuse (¬ segment.endsWith envelope projection) .invalidState
  let dependencies := snapshot ++ events ++ [envelope.authority.grantRef]
  all validateReference dependencies
  encoded (enc.cutBytes envelope projection segment dependencies.toFinset) CONTROL_BYTES
  let next ← checkedSucc generation
  return ⟨envelope, projection, segment, dependencies.toFinset, next, decision⟩

end Kinewright.Orchestration
