import Kinewright.Orchestration.Mailbox

/-!
# Commands of a run

`machine.rs`: a command is decided on, applied to the projection of the run, and the next projection is
proposed as one event. A command that is refused with a receipt is an event too.
-/

namespace Kinewright.Orchestration

open Fallible Accounting

inductive Transition
  | start
  | control (action : RunAction)
  | task (transition : TaskTransition)
  | lifecycle
  | refused (reason : RecordedRefusal)
deriving DecidableEq

/-- `eligible`. -/
def eligible (s : RunProjection) (action : RunAction) : Bool :=
  decide (s.outcome = .pending) &&
    match action with
    | .pause => decide (s.phase = .queued ∨ s.phase = .running ∨ s.phase = .reviewing)
    | .stop => decide (s.phase ≠ .finished)
    | .continue => decide ((s.phase = .paused ∨ s.phase = .interrupted) ∧ s.cleanup = .settled ∧ s.wait = .none)
    | .sendMessage _ => (director s).toOption.isSome && decide (s.effects.length < ITEM_LIMIT)

/-- A decision about a control of the run. -/
def decideControl (s : RunProjection) (intent : RunIntent) : Except Refusal Transition := do
  refuse (s.run ≠ intent.runId) .scopeConflict
  if s.controlRevision ≠ intent.expectedControlRevision then return .refused .staleControl
  else if eligible s intent.action = false then return .refused .invalidState
  else return .control intent.action

/-- A decision about a command that is for tasks alone. -/
def decideOther (s : RunProjection) (command : OrchestrationCommand) : Except Refusal Transition := do
  match ← decideTask s command with
  | some transition => return .task transition
  | none => return .refused .unsupported

/-- `decide` for a run that was started. -/
def decideNext (s : RunProjection) (command : OrchestrationCommand) : Except Refusal Transition :=
  match command with
  | .controlRun intent => decideControl s intent
  | .recordContext .. | .settleExpiredBackground _ | .waitTimeout _ | .cancelTask _ =>
    if s.outcome = .pending then .ok .lifecycle else .error .invalidState
  | .beginTurn _ | .endTurn _ | .backgroundWork .. | .request _ | .admitQuestionWake _
  | .executeQuestionWake _ | .answerQuestion .. | .expireSession _ | .offerDeliveries ..
  | .observeDelivery _ => .ok .lifecycle
  | command => decideOther s command

/-- `decide` for a run that was not started. -/
def decideFirst (command : OrchestrationCommand) : Transition :=
  match command with
  | .startRun brief => if brief.role = .director then .start else .refused .unsupported
  | _ => .refused .unsupported

/-! ## Control -/

/-- The tasks that have no parent. -/
def roots (s : RunProjection) : List TaskId := (s.tasks.filter fun task => task.parent = none).map TaskRecord.id

/-- A pending effect is disposed of. -/
def EffectRecord.dispose (effect : EffectRecord) : EffectRecord :=
  if effect.state = .pending then { effect with state := .disposed } else effect

/-- How a run ends that a person stopped. -/
def stoppedByPerson : RunOutcome := .cancelled ⟨"stopped_by_person", none⟩

/-- `RunAction::Stop`. The attempts are not over because the run was stopped. -/
def stop (s : RunProjection) : Except Refusal RunProjection := do
  let t ← (roots s).foldlM cancel { s with
    phase := .finished
    outcome := stoppedByPerson }
  return { t with effects := t.effects.map EffectRecord.dispose }

variable (enc : Encoding)

/-- The effect that brings a message to the director. -/
def messageEffect (envelope : OrchestrationEnvelope) (task : TaskRecord) (order : ℕ)
    (text : ObjectRef) : EffectRecord where
  id := envelope.identity enc "effect.control-message"
  task := task.id
  lane := task.brief.branch
  order := order
  safety := .replaySafe
  state := .pending
  payload := text

/-- `RunAction::SendMessage`. -/
def sendMessage (s : RunProjection) (envelope : OrchestrationEnvelope) (text : ObjectRef) :
    Except Refusal RunProjection := do
  let task ← director s
  let order ← nextOrder s task.brief.branch
  return { s with effects := s.effects ++ [messageEffect enc envelope task order text] }

/-- `Transition::Control`. -/
def control (s : RunProjection) (envelope : OrchestrationEnvelope) : RunAction → Except Refusal RunProjection
  | .pause => .ok { s with phase := .paused }
  | .stop => stop s
  | .continue => .ok { s with phase := .queued }
  | .sendMessage text => sendMessage enc s envelope text

/-! ## Preparation -/

/-- `Transition::Lifecycle`. -/
def lifecycle (s : RunProjection) (envelope : OrchestrationEnvelope)
    (live : Option RuntimeRequest) : Except Refusal RunProjection := do
  match ← applyLifecycle s envelope with
  | some t => return t
  | none =>
    match ← applyAuthorized s envelope live with
    | some t => return t
    | none =>
      match ← applyMailbox s envelope with
      | some t => return t
      | none => .error .unsupported

/-- The director's task of a run that starts. -/
def directorTask (envelope : OrchestrationEnvelope) (brief : TaskBrief) : TaskRecord where
  id := envelope.identity enc "task"
  parent := none
  brief := brief
  state := .queued
  progress := .new

/-- A run that starts, with the effect that prepares its director. -/
def startRun (envelope : OrchestrationEnvelope) (brief : TaskBrief) : RunProjection where
  run := envelope.identity enc "run"
  sequence := 0
  controlRevision := envelope.identity enc "control-revision"
  phase := .queued
  outcome := .pending
  wait := .none
  cleanup := .settled
  tasks := [directorTask enc envelope brief]
  effects := [prepareEffect enc envelope (directorTask enc envelope brief) 1]
  attempts := []
  deliveries := []
  requests := []
  results := []
  usage := []

/-- The projection after a transition, before its summaries, and whether the command was applied. -/
def transit (s : RunProjection) (envelope : OrchestrationEnvelope) (live : Option RuntimeRequest) :
    Transition → Except Refusal (Option RunProjection)
  | .start => .error .unsupported
  | .control action => some <$> control enc s envelope action
  | .task transition => some <$> applyTaskTransition enc s envelope transition
  | .lifecycle => some <$> lifecycle s envelope live
  | .refused _ => .ok none

/-- What a decision records of a transition. -/
def Transition.decision : Transition → CommandDecision
  | .refused reason => .refused reason
  | _ => .applied

/-- The next projection, with the sequence after the last one, proposed as one event. -/
def propose (project : ProjectId) (generation : ℕ) (envelope : OrchestrationEnvelope)
    (previous : Option ObjectRef) (s : RunProjection) (decision : CommandDecision) :
    Except Refusal ValidatedRunUpdate := do
  let sequence ← checkedSucc s.sequence
  let next := { s with sequence := sequence }
  ValidatedRunUpdate.new enc project generation envelope next
    ⟨next.run, sequence, previous, [⟨envelope.id, sequence, next⟩]⟩ decision

/-- The projection that a command leaves, with its summaries computed anew if it was applied. -/
def nextProjection (s : RunProjection) (envelope : OrchestrationEnvelope)
    (live : Option RuntimeRequest) (transition : Transition) : Except Refusal RunProjection := do
  match ← transit enc s envelope live transition with
  | some t => return refreshWait (refreshCleanup
      { t with controlRevision := envelope.identity enc "control-revision" })
  | none => return s

/-- `prepare_with_attention` for a run that was started. -/
def prepareNext (s : RunProjection) (project : ProjectId) (generation : ℕ)
    (envelope : OrchestrationEnvelope) (previous : Option ObjectRef)
    (live : Option RuntimeRequest) : Except Refusal ValidatedRunUpdate := do
  envelope.validate enc
  validateProjection enc s
  let transition ← decideNext s envelope.command
  let next ← nextProjection enc s envelope live transition
  propose enc project generation envelope previous next transition.decision

/-- `prepare_with_attention` for a run that was not started. -/
def prepareFirst (project : ProjectId) (generation : ℕ) (envelope : OrchestrationEnvelope)
    (previous : Option ObjectRef) : Except Refusal ValidatedRunUpdate := do
  envelope.validate enc
  match envelope.command with
  | .startRun brief => do
    refuse (decideFirst envelope.command ≠ .start) .unsupported
    propose enc project generation envelope previous
      (refreshWait (refreshCleanup (startRun enc envelope brief))) .applied
  | _ => .error .unsupported

/-- `prepare_with_attention`. -/
def prepareWithAttention (state : Option RunProjection) (project : ProjectId) (generation : ℕ)
    (envelope : OrchestrationEnvelope) (previous : Option ObjectRef)
    (live : Option RuntimeRequest) : Except Refusal ValidatedRunUpdate :=
  match state with
  | some s => prepareNext enc s project generation envelope previous live
  | none => prepareFirst enc project generation envelope previous

/-- `prepare`. -/
def prepare (state : Option RunProjection) (project : ProjectId) (generation : ℕ)
    (envelope : OrchestrationEnvelope) (previous : Option ObjectRef) :
    Except Refusal ValidatedRunUpdate :=
  prepareWithAttention enc state project generation envelope previous none

/-- `prepare_result_update`. -/
def prepareResultUpdate (s : RunProjection) (project : ProjectId) (generation : ℕ)
    (envelope : OrchestrationEnvelope) (previous : Option ObjectRef) (result : ObjectRef) :
    Except Refusal ValidatedRunUpdate := do
  validateProjection enc s
  let next ← resultAndDelivery enc s envelope result
  propose enc project generation envelope previous
    { next with controlRevision := envelope.identity enc "control-revision" } .applied

end Kinewright.Orchestration
