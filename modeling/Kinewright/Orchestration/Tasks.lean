import Mathlib.Data.Finset.Sort
import Kinewright.Orchestration.Requests

/-!
# Tasks of a run

`tasks.rs`: how a task is assigned, takes its turns, is frozen and is cancelled with everything below
it, and the two summaries of a run that are computed anew after every command.
-/

namespace Kinewright.Orchestration

open Fallible Accounting

/-! ## Assignment and freezing -/

/-- The highest order in a lane. -/
def maxOrder (s : RunProjection) (lane : BranchId) : ℕ :=
  ((s.effects.filter fun effect => effect.lane = lane).map EffectRecord.order).foldl max 0

/-- The order of an effect that is appended to a lane. -/
def nextOrder (s : RunProjection) (lane : BranchId) : Except Refusal ℕ := checkedSucc (maxOrder s lane)

inductive TaskTransition
  | assign (assignment : AssignTask)
  | freeze (task : TaskId)
deriving DecidableEq

/-- The task works on the branch for a parent, and is not over. A reviewer only reads. -/
def TaskRecord.occupies (task : TaskRecord) (branch : BranchId) : Bool :=
  task.parent.isSome && decide (task.brief.role ≠ .reviewer) && !task.state.isDone &&
    decide (task.brief.branch = branch)

/-- `ready`: the last turn of a task was for work and has ended, and nothing of it is outstanding. -/
def ready (s : RunProjection) (id : TaskId) : Bool :=
  match s.task? id with
  | none => false
  | some task =>
    task.progress.turnEnded && !task.progress.expired &&
    task.progress.turn.any (fun turn => decide (turn.purpose = .work)) &&
    decide (task.progress.background = 0) && !task.state.isClosed &&
    (s.tasks.filter fun child => child.parent = some id).all (fun child =>
      child.state.isDone && (s.deliveries.filter fun delivery => delivery.task = child.id).all
        fun delivery => delivery.state.isFinished) &&
    !s.questions.any fun question =>
      decide (question.task = id) && decide (question.status = .pending)

/-- The state in which a task may be frozen. -/
def TaskState.mayFreeze : TaskState → Bool
  | .preparing | .running _ | .waitingForChildren _ => true
  | _ => false

/-- A decision about an assignment. -/
def decideAssign (s : RunProjection) (assignment : AssignTask) : Except Refusal TaskTransition := do
  refuse (assignment.run ≠ s.run) .scopeConflict
  let parent ← okOr .scopeConflict (s.task? assignment.parent)
  refuse (assignment.brief.role = .director ∨ parent.brief.role = .reviewer ∨
    parent.state = .freezing ∨ parent.state.isClosed = true ∨ s.outcome ≠ .pending) .invalidState
  refuse (ATTEMPT_LIMIT ≤ s.dependencySlots) .dependencyCapacity
  refuse (s.phase = .paused) .invalidState
  refuse (TASK_LIMIT ≤ s.tasks.length) .capacity
  refuse (assignment.brief.role ≠ .reviewer ∧
    ∃ task ∈ s.tasks, task.occupies assignment.brief.branch = true) .dependencyCapacity
  return .assign assignment

/-- A decision about a freeze. -/
def decideFreeze (s : RunProjection) (id : TaskId) : Except Refusal TaskTransition := do
  let task ← okOr .scopeConflict (s.task? id)
  refuse (ready s id = false ∨ task.state.mayFreeze = false) .invalidState
  return .freeze id

/-- `decide_task`. -/
def decideTask (s : RunProjection) (command : OrchestrationCommand) : Except Refusal (Option TaskTransition) :=
  match command with
  | .assignTask assignment => some <$> decideAssign s assignment
  | .freezeTask id => some <$> decideFreeze s id
  | _ => .ok none

variable (enc : Encoding)

/-- The task of an assignment. -/
def assignedTask (envelope : OrchestrationEnvelope) (assignment : AssignTask) : TaskRecord where
  id := envelope.identity enc "task"
  parent := some assignment.parent
  brief := assignment.brief
  state := .queued
  progress := .new

/-- The effect that prepares a task. -/
def prepareEffect (envelope : OrchestrationEnvelope) (task : TaskRecord) (order : ℕ) :
    EffectRecord where
  id := envelope.identity enc "effect.prepare"
  task := task.id
  lane := task.brief.branch
  order := order
  safety := .replaySafe
  state := .pending
  payload := task.brief.assignment

/-- `apply_task_transition`. -/
def applyTaskTransition (s : RunProjection) (envelope : OrchestrationEnvelope) :
    TaskTransition → Except Refusal RunProjection
  | .assign assignment => do
    let task := assignedTask enc envelope assignment
    let order ← nextOrder s task.brief.branch
    return { s with
      effects := s.effects ++ [prepareEffect enc envelope task order]
      tasks := s.tasks ++ [task] }
  | .freeze id => do
    let _ ← okOr .scopeConflict (s.task? id)
    return s.modifyTask id fun task => { task with state := .freezing }

/-! ## Summaries -/

/-- The children that the run waits for: those that a waiting task names and that are not over, and
those whose results were not observed. -/
def awaitedChildren (s : RunProjection) : Finset TaskId :=
  (s.tasks.flatMap fun task => (task.state.children?.getD []).filter fun id =>
      s.tasks.any fun child => decide (child.id = id) && !child.state.isDone).toFinset ∪
    ((s.deliveries.filter fun delivery => !delivery.state.isFinished).map DeliveryRecord.task).toFinset

/-- The wait is for something that only its owner can settle. -/
def RunWait.isExternal : RunWait → Bool
  | .files _ | .provider _ => true
  | _ => false

/-- `refresh_wait`. -/
def refreshWait (s : RunProjection) : RunProjection :=
  if s.wait.isExternal then s
  else match s.questions.find? fun question => question.status = .pending with
    | some question => { s with wait := .question question.id }
    | none =>
      if awaitedChildren s = ∅ then { s with wait := .none }
      else { s with wait := .children ((awaitedChildren s).sort (· ≤ ·)) }

/-- `refresh_cleanup`. -/
def refreshCleanup (s : RunProjection) : RunProjection :=
  { s with cleanup :=
      if s.required = [] then .settled
      else match s.cleanup with
        | .blocked _ reason => .blocked s.required reason
        | _ => .pending s.required }

/-! ## Cancellation -/

/-- `settle_generations`: an effect whose deliveries are all over is over itself. -/
def settleGenerations (s : RunProjection) : RunProjection :=
  { s with effects := s.effects.map fun effect =>
      let deliveries := s.deliveries.filter fun delivery => delivery.wake = effect.id
      if deliveries ≠ [] ∧ deliveries.all (fun delivery => delivery.state.isFinished) = true then
        { effect with state :=
            if deliveries.any fun delivery => delivery.state.isObserved then .settled else .disposed }
      else effect }

/-- One pass over the tasks, which adds those whose parents are there. -/
def subtreePass (s : RunProjection) (ids : Finset TaskId) : Finset TaskId :=
  s.tasks.foldl (fun ids task =>
    if ∃ parent ∈ task.parent, parent ∈ ids then insert task.id ids else ids) ids

/-- The task and everything below it. -/
def subtree (s : RunProjection) (id : TaskId) : Finset TaskId := (subtreePass s)^[s.tasks.length] {id}

/-- What a cancellation does to a task. -/
def TaskRecord.cancel (s : RunProjection) (task : TaskRecord) : TaskRecord :=
  if s.hasLive task.id then { task with state := .cancelling }
  else { task with
    state := .cancelled
    progress := { task.progress with capacity := .free } }

/-- What a cancellation does to a question. -/
def QuestionRecord.cancel (ids : Finset TaskId) (question : QuestionRecord) : QuestionRecord :=
  if question.task ∈ ids ∧ question.status = .pending then
    { question with
      status := .cancelled
      wake := .disposed }
  else question

/-- The recipient of the delivery is among the tasks. -/
def recipientIn (s : RunProjection) (ids : Finset TaskId) (delivery : DeliveryRecord) : Bool :=
  (s.parentOf delivery.task).any fun parent => parent ∈ ids

/-- The body of `cancel`, before its generations are settled. -/
def cancelTasks (s : RunProjection) (ids : Finset TaskId) : RunProjection :=
  { s with
    tasks := s.tasks.map fun task =>
      if task.id ∈ ids ∧ task.state.isDone = false then task.cancel s else task
    attempts := s.attempts.map fun reservation =>
      if reservation.identity.task ∈ ids ∧ reservation.state.isRetired = false ∧
          reservation.state.isBlocked = false then { reservation with state := .stopping }
      else reservation
    effects := s.effects.map fun effect =>
      if effect.task ∈ ids ∧ effect.state = .pending then { effect with state := .disposed }
      else effect
    deliveries := s.deliveries.map fun delivery =>
      if (delivery.task ∈ ids ∨ recipientIn s ids delivery = true) ∧
          delivery.state.isObserved = false then { delivery with state := .disposed }
      else delivery
    requests := s.requests.map (RuntimeRequest.mapQuestion (QuestionRecord.cancel ids)) }

/-- `cancel`. -/
def cancel (s : RunProjection) (id : TaskId) : Except Refusal RunProjection := do
  let _ ← okOr .scopeConflict (s.task? id)
  return settleGenerations (cancelTasks s (subtree s id))

/-! ## Turns -/

/-- `BeginTurn`. -/
def beginTurn (s : RunProjection) (envelope : OrchestrationEnvelope) (turn : TaskTurn) :
    Except Refusal RunProjection := do
  let task ← okOr .scopeConflict (s.task? turn.task)
  refuse (s.phase = .paused ∨ s.outcome ≠ .pending ∨ task.state.isClosed = true ∨
    task.state = .freezing ∨ turn.expectedHead ≠ task.brief.scope.base.head ∨
    task.progress.background ≠ 0 ∨ turn.ordinal = 0 ∨
    (∃ previous ∈ task.progress.turn, (task.progress.turnEnded = false ∧ task.progress.expired = false) ∨
      turn.ordinal ≤ previous.ordinal ∨
      (task.progress.expired = true ∧ turn.session = previous.session)) ∨
    (∃ previous ∈ task.progress.turn, previous.attempt ≠ turn.attempt ∧
      ∃ reservation ∈ s.attempts, reservation.identity.attempt = previous.attempt ∧
        reservation.state.isRetired = false) ∨
    (∃ question ∈ s.questions, question.task = turn.task ∧ question.status = .pending) ∨
    turn.ownerEpoch ≠ envelope.authority.ownerEpoch) .invalidState
  let reservation ← okOr .scopeConflict
    (s.attempts.find? fun reservation => reservation.identity.attempt = turn.attempt)
  refuse (reservation.identity.task ≠ turn.task ∨ reservation.ownerEpoch ≠ turn.ownerEpoch ∨
    reservation.state.isClosed = true) .scopeConflict
  return { (s.modifyTask turn.task fun task =>
      { task with
        progress := { task.progress with
          capacity := .backed turn.attempt
          turn := some turn
          turnEnded := false
          expired := false }
        state := .running turn.attempt }) with
    phase := .running }

/-- The command comes from the attempt of the turn, in its epoch. -/
def fromTurn (envelope : OrchestrationEnvelope) (turn : TaskTurn) : Except Refusal Unit :=
  refuse (envelope.authority.attempt ≠ some turn.attempt ∨
    envelope.authority.ownerEpoch ≠ turn.ownerEpoch) .scopeConflict

/-- `EndTurn`. -/
def endTurn (s : RunProjection) (envelope : OrchestrationEnvelope) (turn : TaskTurn) :
    Except Refusal RunProjection := do
  fromTurn envelope turn
  liveTurn s turn
  let children := (s.tasks.filter fun child =>
    decide (child.parent = some turn.task) && !child.state.isDone).map TaskRecord.id
  return s.modifyTask turn.task fun task =>
    { task with
      progress := { task.progress with turnEnded := true }
      state := if children = [] then task.state else .waitingForChildren children }

/-- `BackgroundWork`. -/
def backgroundWork (s : RunProjection) (envelope : OrchestrationEnvelope) (turn : TaskTurn)
    (count : ℕ) : Except Refusal RunProjection := do
  fromTurn envelope turn
  liveIdentity s turn
  refuse (BACKGROUND_LIMIT < count) .capacity
  return s.modifyTask turn.task fun task =>
    { task with progress := { task.progress with background := count } }

/-- `SettleExpiredBackground`. -/
def settleExpiredBackground (s : RunProjection) (envelope : OrchestrationEnvelope)
    (turn : TaskTurn) : Except Refusal RunProjection := do
  let task ← okOr .scopeConflict (s.task? turn.task)
  refuse (envelope.authority.attempt ≠ none ∨ envelope.authority.endpoint ≠ none ∨
    envelope.authority.ownerEpoch ≠ turn.ownerEpoch ∨ task.progress.expired = false ∨
    task.progress.turn ≠ some turn ∨
    ¬ ∃ reservation ∈ s.attempts, reservation.identity.task = turn.task ∧
      reservation.identity.attempt = turn.attempt ∧ reservation.ownerEpoch = turn.ownerEpoch ∧
      reservation.state.isRetired = true) .invalidState
  return s.modifyTask turn.task fun task =>
    { task with progress := { task.progress with background := 0 } }

/-- `RecordContext`. -/
def recordContext (s : RunProjection) (id : TaskId) (feedback decisions : List ObjectRef) :
    Except Refusal RunProjection := do
  let task ← okOr .scopeConflict (s.task? id)
  refuse (ITEM_LIMIT < task.progress.feedback.length + feedback.length ∨
    ITEM_LIMIT < task.progress.decisions.length + decisions.length) .capacity
  all validateReference (feedback ++ decisions)
  return s.modifyTask id fun task =>
    { task with progress := { task.progress with
      feedback := task.progress.feedback ++ feedback
      decisions := task.progress.decisions ++ decisions } }

/-- `WaitTimeout`, which changes nothing. -/
def waitTimeout (s : RunProjection) (id : TaskId) : Except Refusal RunProjection := do
  let _ ← okOr .scopeConflict (s.task? id)
  return s

/-- `apply_lifecycle`: nothing for a command that is not about the life of a task. -/
def applyLifecycle (s : RunProjection) (envelope : OrchestrationEnvelope) : Except Refusal (Option RunProjection) :=
  match envelope.command with
  | .beginTurn turn => some <$> beginTurn s envelope turn
  | .endTurn turn => some <$> endTurn s envelope turn
  | .backgroundWork turn count => some <$> backgroundWork s envelope turn count
  | .settleExpiredBackground turn => some <$> settleExpiredBackground s envelope turn
  | .cancelTask id => some <$> cancel s id
  | .recordContext id feedback decisions => some <$> recordContext s id feedback decisions
  | .waitTimeout id => some <$> waitTimeout s id
  | _ => .ok none

end Kinewright.Orchestration
