import Kinewright.Orchestration.Tasks

/-!
# Results and their deliveries

`mailbox.rs`: the result of a frozen task is published together with a delivery to its parent. The
results of siblings that are still waiting to be offered share one wake of the parent.
-/

namespace Kinewright.Orchestration

open Fallible Accounting

/-- `require_publishable`. -/
def requirePublishable (s : RunProjection) (task : TaskRecord) : Except Refusal Unit :=
  refuse (ready s task.id = false ∨ s.outcome ≠ .pending ∨ task.state ≠ .freezing) .invalidState

/-- The deliveries to the same parent. -/
def siblings (s : RunProjection) (parent : Option TaskId) : List DeliveryRecord :=
  s.deliveries.filter fun delivery =>
    s.tasks.any fun other => decide (other.id = delivery.task) && decide (other.parent = parent)

/-- The delivery to the same parent that was not offered yet, whose wake is shared. -/
def coalesced (s : RunProjection) (parent : Option TaskId) : Option DeliveryRecord :=
  (siblings s parent).find? fun delivery => delivery.state = .pending

/-- The generation of the delivery of a result. -/
def resultGeneration (s : RunProjection) (parent : Option TaskId) : Except Refusal ℕ :=
  match coalesced s parent with
  | some delivery => .ok delivery.generation
  | none => checkedSucc (((siblings s parent).map DeliveryRecord.generation).foldl max 0)

variable (enc : Encoding)

/-- The delivery of a result, with the wake and the message of the one it is coalesced with. -/
def resultDelivery (s : RunProjection) (envelope : OrchestrationEnvelope) (task : TaskRecord)
    (result : ObjectRef) (generation : ℕ) : DeliveryRecord where
  id := envelope.identity enc "delivery"
  task := task.id
  result := result
  generation := generation
  wake := match coalesced s task.parent with
    | some delivery => delivery.wake
    | none => envelope.identity enc "effect.deliver-result"
  message := match coalesced s task.parent with
    | some delivery => delivery.message
    | none => envelope.identity enc "result-message"
  state := .pending

/-- The effect that wakes a parent. -/
def wakeEffect (envelope : OrchestrationEnvelope) (parent : TaskRecord) (result : ObjectRef)
    (order : ℕ) : EffectRecord where
  id := envelope.identity enc "effect.deliver-result"
  task := parent.id
  lane := parent.brief.branch
  order := order
  safety := .replaySafe
  state := .pending
  payload := result

/-- The wake of a result, unless it has no parent or is coalesced with another. -/
def resultWake (s : RunProjection) (envelope : OrchestrationEnvelope) (task : TaskRecord)
    (result : ObjectRef) : Except Refusal (List EffectRecord) :=
  match task.parent with
  | none => .ok []
  | some id =>
    if (coalesced s task.parent).isSome then .ok []
    else do
      let parent ← okOr .invalidState (s.task? id)
      let order ← nextOrder s parent.brief.branch
      return [wakeEffect enc envelope parent result order]

/-- The body of `result_and_delivery`. -/
def publishResult (s : RunProjection) (envelope : OrchestrationEnvelope) (id : TaskId)
    (published : TaskResult) (result : ObjectRef) : Except Refusal RunProjection := do
  refuse (ITEM_LIMIT ≤ s.results.length ∨ ITEM_LIMIT ≤ s.deliveries.length ∨ ITEM_LIMIT ≤ s.effects.length) .capacity
  let task ← okOr .scopeConflict (s.task? id)
  requirePublishable s task
  refuse (published.base ≠ some task.brief.scope.base ∨ published.head = none) .invalidState
  encoded (enc.resultBytes published) CONTROL_BYTES
  refuse (result.sha256 ≠ enc.resultDigest published ∨
    result.byteLength.toNat ≠ enc.resultBytes published) .scopeConflict
  let generation ← resultGeneration s task.parent
  let wake ← resultWake enc s envelope task result
  return refreshWait { (s.modifyTask id fun task => { task with state := .terminal result }) with
    results := s.results ++ [result]
    deliveries := s.deliveries ++
      if task.parent.isSome then [resultDelivery enc s envelope task result generation] else []
    effects := s.effects ++ wake }

/-- `result_and_delivery`. -/
def resultAndDelivery (s : RunProjection) (envelope : OrchestrationEnvelope) (result : ObjectRef) :
    Except Refusal RunProjection := do
  envelope.validate enc
  match envelope.command with
  | .publishResult id published => publishResult enc s envelope id published result
  | _ => .error .unsupported

/-! ## Offers and observations -/

/-- The delivery is offered to the attempt, if it goes to the parent and is not over. -/
def DeliveryRecord.offer (s : RunProjection) (parent : TaskId) (attempt : AttemptId)
    (delivery : DeliveryRecord) : DeliveryRecord :=
  if (∃ task ∈ s.tasks, task.id = delivery.task ∧ task.parent = some parent) ∧ delivery.state.isFinished = false then
    { delivery with state := .offered attempt delivery.message }
  else delivery

/-- `OfferDeliveries`. -/
def offerDeliveries (s : RunProjection) (parent : TaskId) (attempt : AttemptId) : Except Refusal RunProjection := do
  refuse (s.outcome ≠ .pending ∨ s.phase = .paused ∨ (¬ ∃ reservation ∈ s.attempts, reservation.identity.task = parent ∧
      reservation.identity.attempt = attempt ∧ reservation.state.isClosed = false) ∨
    ¬ ∃ task ∈ s.tasks, task.id = parent ∧ task.state.isCancelledOrDone = false) .invalidState
  return { s with deliveries := s.deliveries.map (DeliveryRecord.offer s parent attempt) }

/-- `ObserveDelivery`. -/
def observeDelivery (s : RunProjection) (envelope : OrchestrationEnvelope) (id : DeliveryId) :
    Except Refusal RunProjection := do
  let delivery ← okOr .scopeConflict (s.deliveries.find? fun delivery => delivery.id = id)
  let parent ← okOr .scopeConflict (s.parentOf delivery.task)
  let turn ← okOr .invalidState ((s.task? parent).bind fun task => task.progress.turn)
  liveTurn s turn
  refuse (envelope.authority.attempt ≠ some turn.attempt ∨
    delivery.state ≠ .offered turn.attempt delivery.message) .scopeConflict
  return settleGenerations { s with
    deliveries := s.deliveries.modifyFirst (fun delivery => delivery.id = id) fun delivery =>
      { delivery with state := .observed s.run } }

/-- `mailbox::apply`: nothing for a command that is not about deliveries. -/
def applyMailbox (s : RunProjection) (envelope : OrchestrationEnvelope) : Except Refusal (Option RunProjection) :=
  match envelope.command with
  | .offerDeliveries parent attempt => some <$> offerDeliveries s parent attempt
  | .observeDelivery id => some <$> observeDelivery s envelope id
  | _ => .ok none

end Kinewright.Orchestration
