import Mathlib.Data.List.MinMax
import Kinewright.Orchestration.Tasks

/-!
# The effects of a lane, in their order

`outbox.rs`: only the first effect of a lane that is not over may be claimed, and an effect whose
outcome is unknown holds its lane until it is reconciled.
-/

namespace Kinewright.Orchestration

open Fallible

/-- The effects of a lane that are not over. -/
def unfinished (s : RunProjection) (lane : BranchId) : List EffectRecord :=
  s.effects.filter fun effect => decide (effect.lane = lane) && !effect.state.isFinished

/-- `next_effect`. -/
def nextEffect (s : RunProjection) (lane : BranchId) : Option EffectRecord :=
  if s.outcome ≠ .pending ∨ s.phase = .paused ∨ s.phase = .interrupted then none
  else ((unfinished s lane).argmin EffectRecord.order).filter fun effect => effect.state = .pending

/-- The effect of the id, in a new state. -/
def RunProjection.setEffect (s : RunProjection) (id : EffectId) (state : EffectState) :
    RunProjection :=
  { s with
    effects := s.effects.modifyFirst (fun effect => effect.id = id) fun effect =>
      { effect with state := state } }

/-- The effect of the id. -/
def findEffect (s : RunProjection) (id : EffectId) : Except Refusal EffectRecord :=
  okOr .unknown (s.effects.find? fun effect => effect.id = id)

/-- `claim`. -/
def claim (s : RunProjection) (id : EffectId) (attempt : AttemptId) : Except Refusal RunProjection := do
  let effect ← findEffect s id
  refuse ((nextEffect s effect.lane).map EffectRecord.id ≠ some id) .invalidState
  return s.setEffect id (.claimed attempt)

/-- `outcome_unknown`. -/
def outcomeUnknown (s : RunProjection) (id : EffectId) (attempt : AttemptId) : Except Refusal RunProjection := do
  let effect ← findEffect s id
  refuse (effect.state ≠ .claimed attempt) .scopeConflict
  return s.setEffect id .outcomeUnknown

/-- `retry_reconciled_safe`. -/
def retryReconciledSafe (s : RunProjection) (id : EffectId) : Except Refusal RunProjection := do
  let effect ← findEffect s id
  refuse (effect.state ≠ .outcomeUnknown ∨ effect.safety ≠ .replaySafe) .invalidState
  return s.setEffect id .pending

end Kinewright.Orchestration
