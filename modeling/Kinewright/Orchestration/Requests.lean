import Kinewright.Lib.Lists
import Kinewright.Orchestration.Commit

/-!
# Questions to the director

`requests.rs`: a task asks its director a question, which is admitted, executed and answered; a
request for attention; and the end of a session, which expires what was asked in it.
-/

namespace Kinewright.Orchestration

open Fallible Accounting

namespace RunProjection

variable (s : RunProjection)

/-- The first task of the id, changed. -/
def modifyTask (id : TaskId) (change : TaskRecord → TaskRecord) : RunProjection :=
  { s with tasks := s.tasks.modifyFirst (fun task => task.id = id) change }

/-- The question of the id. -/
def question? (id : QuestionId) : Option QuestionRecord := s.questions.find? fun question => question.id = id

end RunProjection

/-- The question of a request, changed. -/
def RuntimeRequest.mapQuestion (change : QuestionRecord → QuestionRecord) : RuntimeRequest → RuntimeRequest
  | .question asked => .question (change asked)
  | request => request

/-- The first question of the id, changed. -/
def RunProjection.modifyQuestion (s : RunProjection) (id : QuestionId)
    (change : QuestionRecord → QuestionRecord) : RunProjection :=
  { s with
    requests := s.requests.modifyFirst (fun request => request.question?.any fun question => question.id = id)
      (RuntimeRequest.mapQuestion change) }

/-! ## What is live -/

/-- `live_identity`. -/
def liveIdentity (s : RunProjection) (turn : TaskTurn) : Except Refusal Unit := do
  let task ← okOr .scopeConflict (s.task? turn.task)
  refuse (s.outcome ≠ .pending ∨ task.state.isClosed = true ∨ task.progress.expired = true ∨
    task.progress.turn ≠ some turn ∨ turn.expectedHead ≠ task.brief.scope.base.head ∨
    ¬ ∃ reservation ∈ s.attempts, reservation.identity.task = turn.task ∧
      reservation.identity.attempt = turn.attempt ∧ reservation.ownerEpoch = turn.ownerEpoch ∧
      reservation.state.isClosed = false) .invalidState

/-- `live_turn`. -/
def liveTurn (s : RunProjection) (turn : TaskTurn) : Except Refusal Unit := do
  liveIdentity s turn
  refuse (∀ task ∈ s.task? turn.task, task.progress.turnEnded = true) .invalidState

/-- `director`. -/
def director (s : RunProjection) : Except Refusal TaskRecord :=
  okOr .invalidState (s.tasks.find? fun task => decide (task.brief.role = .director) && !task.state.isClosed)

/-- `question_live`. -/
def questionLive (s : RunProjection) (id : QuestionId) : Except Refusal QuestionRecord := do
  let question ← okOr .invalidState (s.question? id)
  refuse (question.status ≠ .pending) .invalidState
  liveIdentity s question.origin
  let _ ← director s
  return question

/-! ## Commands -/

/-- A request for approval or for a secret, which only the host admits. -/
def applyAttention (s : RunProjection) (envelope : OrchestrationEnvelope)
    (live : Option RuntimeRequest) (request : RuntimeRequest) (attention : AttentionReference) :
    Except Refusal RunProjection := do
  refuse (live ≠ some request) .h3AttentionUnavailable
  let turn ← okOr .invalidState ((s.task? attention.task).bind fun task => task.progress.turn)
  liveTurn s turn
  refuse (turn.attempt ≠ attention.attempt ∨ envelope.authority.attempt ≠ some attention.attempt ∨
    envelope.authority.ownerEpoch ≠ turn.ownerEpoch ∨ ITEM_LIMIT ≤ s.requests.length ∨
    request ∈ s.requests) .scopeConflict
  return { s with
    requests := s.requests ++ [request]
    wait := .provider ⟨attention.requestRef, [], some attention.attempt⟩ }

/-- `Request(Question)`. -/
def applyQuestion (s : RunProjection) (envelope : OrchestrationEnvelope)
    (question : QuestionRecord) : Except Refusal RunProjection := do
  liveTurn s question.origin
  refuse (envelope.authority.attempt ≠ some question.origin.attempt ∨
    envelope.authority.ownerEpoch ≠ question.origin.ownerEpoch) .scopeConflict
  let _ ← director s
  refuse (question.task ≠ question.origin.task ∨ question.status ≠ .pending ∨
    question.wake ≠ .pending ∨ ITEM_LIMIT ≤ s.requests.length ∨
    ∃ other ∈ s.questions, other.id = question.id) .invalidState
  let _ ← okOr .scopeConflict (s.task? question.task)
  return { (s.modifyTask question.task fun task =>
      { task with state := .waitingForQuestion question.id }) with
    requests := s.requests ++ [.question question] }

/-- `AdmitQuestionWake` and `ExecuteQuestionWake`, each at its own step of the wake. -/
def applyWake (s : RunProjection) (id : QuestionId) (before after : QuestionWake) : Except Refusal RunProjection := do
  refuse (s.phase = .paused ∨ s.phase = .interrupted) .invalidState
  let question ← questionLive s id
  refuse (question.wake ≠ before) .invalidState
  return s.modifyQuestion id fun question => { question with wake := after }

/-- `AnswerQuestion`. -/
def applyAnswer (s : RunProjection) (envelope : OrchestrationEnvelope) (id : QuestionId)
    (answer : ObjectRef) : Except Refusal RunProjection := do
  let question ← questionLive s id
  let director ← director s
  let turn ← okOr .scopeConflict director.progress.turn
  liveTurn s turn
  refuse (envelope.authority.attempt ≠ some turn.attempt ∨
    envelope.authority.ownerEpoch ≠ turn.ownerEpoch) .scopeConflict
  refuse (ITEM_LIMIT ≤ director.progress.decisions.length) .capacity
  let _ ← okOr .scopeConflict (s.task? question.task)
  return ((s.modifyTask director.id fun task =>
      { task with progress :=
        { task.progress with decisions := task.progress.decisions ++ [answer] } }).modifyQuestion id
    fun question => { question with
      status := .answered answer
      wake := .disposed }).modifyTask question.task fun task =>
        { task with state := .running question.origin.attempt }

/-- The task works in the session. -/
def TaskRecord.inSession (task : TaskRecord) (session : SessionId) : Bool :=
  task.progress.turn.any fun turn => turn.session = session

/-- What the end of a session does to a question. -/
def QuestionRecord.expire (session : SessionId) (question : QuestionRecord) : QuestionRecord :=
  if question.origin.session = session ∧ question.status = .pending then
    { question with
      status := .expired
      wake := .disposed }
  else question

/-- What the end of a session does to a task. -/
def TaskRecord.expire (session : SessionId) (task : TaskRecord) : TaskRecord :=
  if task.inSession session = true ∧ task.state.isCancelledOrDone = false then
    { task with
      progress := { task.progress with
        expired := true
        turnEnded := false }
      state := .preparing }
  else task

/-- `ExpireSession`. -/
def applyExpire (s : RunProjection) (session : SessionId) : Except Refusal RunProjection := do
  refuse (¬ ∃ task ∈ s.tasks, task.progress.expired = false ∧ task.inSession session = true ∧
    task.state.isClosed = false) .invalidState
  return { s with
    requests := s.requests.map (RuntimeRequest.mapQuestion (QuestionRecord.expire session))
    tasks := s.tasks.map (TaskRecord.expire session)
    phase := if s.phase = .finished then .finished else .interrupted }

/-- `apply_authorized`: nothing for a command that is not about requests. -/
def applyAuthorized (s : RunProjection) (envelope : OrchestrationEnvelope)
    (live : Option RuntimeRequest) : Except Refusal (Option RunProjection) :=
  match envelope.command with
  | .request (.approval attention) =>
    some <$> applyAttention s envelope live (.approval attention) attention
  | .request (.secret attention) =>
    some <$> applyAttention s envelope live (.secret attention) attention
  | .request (.question question) => some <$> applyQuestion s envelope question
  | .admitQuestionWake id => some <$> applyWake s id .pending .admitted
  | .executeQuestionWake id => some <$> applyWake s id .admitted .executed
  | .answerQuestion id answer => some <$> applyAnswer s envelope id answer
  | .expireSession session => some <$> applyExpire s session
  | _ => .ok none

end Kinewright.Orchestration
