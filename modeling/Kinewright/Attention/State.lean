import Kinewright.Lib.KeyedMap
import Kinewright.Bundle.Errors

/-!
# Live attention

`attention.rs`, `agent.rs`: an agent asks for an approval or a secret through the observer of its run, and a
person answers it. The requests of all runs are in one registry. A request is answered through the queue of
the observer that registered it.

Whether a grant is live in the projection of its run, and whether a turn still is, is given from outside.
-/

namespace Kinewright.Attention

open Fallible
open Bundle (isHex)

abbrev RunId := String
abbrev TaskId := String
abbrev AttemptId := String

/-- A flag that is shared between a registration, or a grant, and those who hold it. -/
abbrev Flag := ℕ

abbrev ObserverId := ℕ
abbrev AttachmentId := ℕ

/-! ## Requests -/

/-- `RuntimeRequestBinding`. -/
structure RuntimeRequestBinding where
  task : TaskId
  attempt : AttemptId
  session : String
  turn : UInt64
  ownerEpoch : UInt64
deriving DecidableEq

inductive RuntimeRequestKind
  | question | approval | secret
deriving DecidableEq

structure RuntimeRequest where
  id : String
  binding : RuntimeRequestBinding
  kind : RuntimeRequestKind
  text : String
deriving DecidableEq

inductive RuntimeResponse
  | pending
  | questionAnswer (text : String)
  | approvalDecision (approved : Bool)
  | secretReference (reference : String)
  | unsupported
  | h3AttentionUnavailable
  | expired
deriving DecidableEq

/-- `AgentError::Protocol`. -/
abbrev ProtocolError := String

/-- `RuntimeResponse::validate`. -/
def RuntimeResponse.validate (request : RuntimeRequest) (response : RuntimeResponse) : Except ProtocolError Unit :=
  match response with
  | .approvalDecision _ => refuse (request.kind ≠ .approval) "runtime_response_kind"
  | .secretReference reference => do
    refuse (request.kind ≠ .secret) "runtime_response_kind"
    refuse (isHex reference 32 = false) "private_secret_reference"
  | .pending => .error "pending_is_not_a_final_response"
  | .questionAnswer text => refuse (request.kind ≠ .question ∨ 16 * 1024 < text.utf8ByteSize)
      "runtime_response_kind_or_bounds"
  | _ => .ok ()

/-- `LiveResponseOutcome`. -/
inductive LiveResponseOutcome
  | consumed | unknown | revoked | expired
deriving DecidableEq

/-! ## Answers -/

inductive AttentionAnswer
  | approval (approved : Bool)
  | secretReference (reference : String)
deriving DecidableEq

structure LiveAttentionResponse where
  run : RunId
  requestId : String
  bindingDigest : String
  command : UInt64
  answer : AttentionAnswer
deriving DecidableEq

/-- The response of the runtime that an answer is given as. -/
def AttentionAnswer.runtime : AttentionAnswer → RuntimeResponse
  | .approval approved => .approvalDecision approved
  | .secretReference reference => .secretReference reference

/-- `RuntimeResponseControl`, with the live authority that it is bound to. -/
structure RuntimeResponseControl where
  request : RuntimeRequest
  response : RuntimeResponse
  holder : AttachmentId
  revoked : Flag
  expires : ℕ
deriving DecidableEq

/-- `HostRefusal`: a code, and what it says. -/
structure HostRefusal where
  code : String
  reason : String
deriving DecidableEq

/-! ## The registry -/

/-- `RuntimeGrantBinding`. -/
structure RuntimeGrantBinding where
  run : RunId
  task : TaskId
  attempt : AttemptId
  ownerEpoch : UInt64
deriving DecidableEq

structure PendingAttention where
  grant : RuntimeGrantBinding
  revoked : Flag
  request : RuntimeRequest
  digest : String
  expires : ℕ
  sender : ObserverId
  submitted : Option (AttachmentId × LiveAttentionResponse)
deriving DecidableEq

/-- What the projection of a run says of the grants and of the turns that a request is bound to. -/
structure Projection where
  run : RunId
  grantLive : RuntimeGrantBinding → Bool
  turnLive : RuntimeGrantBinding → RuntimeRequestBinding → Bool

/-- `PendingAttention::live_in`. -/
def PendingAttention.liveIn (pending : PendingAttention) (projection : Projection) (now : ℕ) : Bool :=
  projection.grantLive pending.grant && decide (now < pending.expires) &&
    projection.turnLive pending.grant pending.request.binding

/-- `HostRunObserver`, without its delegate. -/
structure HostRunObserver where
  grant : RuntimeGrantBinding
  revoked : Flag
  queue : List RuntimeResponseControl
deriving DecidableEq

/-- What was done about a registration: a control was queued, or it was reported as revoked. -/
inductive Mark
  | queued | revoked
deriving DecidableEq

/-- `AttentionState`, with the observers, the flags that are given out and those that are set, and what was
done about the registrations so far. -/
structure AttentionState where
  grants : KeyedMap RuntimeGrantBinding Flag
  current : KeyedMap (RunId × TaskId) RuntimeRequestBinding
  requests : KeyedMap (RunId × String) PendingAttention
  consumed : KeyedMap (RunId × String) RuntimeRequestBinding
  observers : KeyedMap ObserverId HostRunObserver
  nextObserver : ObserverId
  nextFlag : Flag
  set : Finset Flag
  marks : List (Flag × Mark)

namespace AttentionState

/-- `AttentionState::default`. -/
def empty : AttentionState where
  grants := .empty
  current := .empty
  requests := .empty
  consumed := .empty
  observers := .empty
  nextObserver := 0
  nextFlag := 0
  set := ∅
  marks := []

variable (s : AttentionState)

/-- The entries of the registry, and those that it remembers. -/
def size : ℕ := s.requests.keys.card + s.consumed.keys.card

/-- Drop the registrations of which the predicate holds. A registration that is dropped sets its flag. -/
def dropRequests (p : RunId × String → PendingAttention → Bool) : AttentionState :=
  { s with
    requests := s.requests.filter fun key pending => !p key pending
    set := s.set ∪ ((s.requests.filter p).values.map PendingAttention.revoked).toFinset }

/-- Set the flags of the registrations of which the predicate holds. -/
def revokeRequests (p : RunId × String → PendingAttention → Bool) : AttentionState :=
  { s with set := s.set ∪ ((s.requests.filter p).values.map PendingAttention.revoked).toFinset }

/-- Grants are kept while an observer holds their flag. -/
def keepGrants : AttentionState :=
  { s with grants := s.grants.filter fun _ flag =>
      decide (∃ id ∈ s.observers.keys, (s.observers.get? id).map HostRunObserver.revoked = some flag) }

/-- `AttentionState::grant`: the flag of the grant, which is made if there is none. -/
def grant (binding : RuntimeGrantBinding) : AttentionState × Except HostRefusal Flag :=
  let s := s.keepGrants
  match s.grants.get? binding with
  | some flag => (s, .ok flag)
  | none =>
    if 64 ≤ s.grants.keys.card then
      (s, .error ⟨"attention_capacity", "64 live attempt grants maximum"⟩)
    else ({ s with
      grants := s.grants.insert binding s.nextFlag
      nextFlag := s.nextFlag + 1 }, .ok s.nextFlag)

/-- `HostCommandOwner::run_observer`, of an admitted producer. -/
def runObserver (binding : RuntimeGrantBinding) : AttentionState :=
  match s.grant binding with
  | (s, .error _) => s
  | (s, .ok flag) => { s with
      observers := s.observers.insert s.nextObserver ⟨binding, flag, []⟩
      nextObserver := s.nextObserver + 1 }

/-! ## Calls of an observer -/

/-- The binding, if it is one of the attempt of the grant. -/
def ownBinding (grant : RuntimeGrantBinding) (binding : Option RuntimeRequestBinding) : Option RuntimeRequestBinding :=
  binding.filter fun b =>
    decide (b.task = grant.task ∧ b.attempt = grant.attempt ∧ b.ownerEpoch = grant.ownerEpoch)

/-- `HostRunObserver::on_runtime_binding`. -/
def onRuntimeBinding (grant : RuntimeGrantBinding) (binding : Option RuntimeRequestBinding) :
    AttentionState :=
  let binding := ownBinding grant binding
  let kept := s.dropRequests fun key pending =>
    !(decide (key.1 ≠ grant.run) || decide (pending.request.binding.task ≠ grant.task) ||
      decide (binding = some pending.request.binding))
  { kept with
    consumed := s.consumed.filter fun key prior =>
      decide (key.1 ≠ grant.run) || decide (prior.task ≠ grant.task) || decide (binding = some prior)
    current := match binding with
      | some binding => s.current.insert (grant.run, grant.task) binding
      | none => s.current.erase (grant.run, grant.task) }

variable (digest : RuntimeRequest → String)

/-- The registration of a request. -/
def register (id : ObserverId) (grant : RuntimeGrantBinding) (request : RuntimeRequest) (now : ℕ) :
    AttentionState :=
  { s with
    requests := s.requests.insert (grant.run, request.id) {
      grant := grant
      revoked := s.nextFlag
      request := request
      digest := digest request
      -- five minutes, in nanoseconds
      expires := now + 300 * 10 ^ 9
      sender := id
      submitted := none }
    nextFlag := s.nextFlag + 1 }

/-- `HostRunObserver::on_runtime_request`. A question is answered by the delegate. -/
def onRuntimeRequest (id : ObserverId) (observer : HostRunObserver) (request : RuntimeRequest)
    (now : ℕ) (delegated : RuntimeResponse) : AttentionState × RuntimeResponse :=
  let grant := observer.grant
  let key := (grant.run, request.id)
  if request.kind = .question then (s, delegated)
  else if observer.revoked ∈ s.set then (s, .pending)
  else if s.consumed.get? key = some request.binding then (s, .pending)
  else if request.binding.task ≠ grant.task ∨ request.binding.attempt ≠ grant.attempt ∨
      request.binding.ownerEpoch ≠ grant.ownerEpoch ∨
      s.current.get? (grant.run, request.binding.task) ≠ some request.binding ∨ 64 ≤ s.size then
    (s, .expired)
  else if s.requests.contains key = true then (s, .pending)
  else (s.register digest id grant request now, .pending)

/-- The registration may be answered again, as a control for the request was revoked. -/
def retract (key : RunId × String) (pending : PendingAttention) (request : RuntimeRequest) :
    AttentionState :=
  { s with
    requests := s.requests.insert key { pending with submitted := none }
    marks := if pending.request = request then s.marks ++ [(pending.revoked, .revoked)] else s.marks }

/-- The registration is consumed. -/
def consume (key : RunId × String) (pending : PendingAttention) : AttentionState :=
  let dropped := s.dropRequests fun key' _ => decide (key' = key)
  { dropped with consumed := s.consumed.insert key pending.request.binding }

/-- `HostRunObserver::on_runtime_response_result`. -/
def onRuntimeResponseResult (grant : RuntimeGrantBinding) (request : RuntimeRequest)
    (outcome : LiveResponseOutcome) : AttentionState :=
  let key := (grant.run, request.id)
  match s.requests.get? key with
  | none => s
  | some pending => 
      if outcome = .revoked then s.retract key pending request else s.consume key pending

/-- `HostRunObserver::poll_runtime_response`, of its own queue. -/
def pollRuntimeResponse (id : ObserverId) (observer : HostRunObserver) : AttentionState :=
  { s with observers := s.observers.insert id { observer with queue := observer.queue.tail } }

/-- An observer is dropped, after its binding. -/
def dropObserver (id : ObserverId) (observer : HostRunObserver) : AttentionState :=
  let unbound := s.onRuntimeBinding observer.grant none
  { unbound with observers := unbound.observers.erase id }

/-! ## Answers -/

/-- The registration that an answer is about is checked, and the control that it gives. -/
def checkAnswer (holder : AttachmentId) (response : LiveAttentionResponse) (projection : Projection)
    (now : ℕ) : Except HostRefusal (PendingAttention × RuntimeResponseControl) := do
  let pending ← okOr ⟨"attention_expired", "no live request"⟩
    (s.requests.get? (response.run, response.requestId))
  let binding := pending.request.binding
  refuse (pending.revoked ∈ s.set ∨ response.command = 0 ∨ response.bindingDigest ≠ pending.digest ∨
    pending.expires ≤ now ∨ s.current.get? (response.run, binding.task) ≠ some binding ∨
    pending.liveIn projection now = false)
    ⟨"attention_expired", "the exact live request must be verified again"⟩
  (response.answer.runtime.validate pending.request).mapError fun _ =>
    ⟨"attention_kind", "ordinary answers cannot approve or provide a secret"⟩
  return (pending, ⟨pending.request, response.answer.runtime, holder, pending.revoked, pending.expires⟩)

/-- The control is put into the queue of the observer, if there is one with room. -/
def trySend (id : ObserverId) (control : RuntimeResponseControl) : Option (KeyedMap ObserverId HostRunObserver) :=
  match s.observers.get? id with
  | none => none
  | some observer =>
    if observer.queue.length < 64
    then some (s.observers.insert id { observer with queue := observer.queue ++ [control] })
    else none

/-- `HostCommandOwner::resolve_attention`. The holder is the person-facing editor, and the run is known, if
nothing is refused outside. -/
def resolveAttention (admitted : Except HostRefusal Projection) (holder : AttachmentId)
    (response : LiveAttentionResponse) (now : ℕ) : AttentionState × Except HostRefusal Unit :=
  match admitted with
  | .error refusal => (s, .error refusal)
  | .ok projection => match s.checkAnswer holder response projection now with
    | .error refusal => (s, .error refusal)
    | .ok (pending, control) => match pending.submitted with
      | some submitted =>
        if submitted ≠ (holder, response) then
          (s, .error ⟨"attention_changed", "an answer is already queued for this request"⟩)
        else (s, .ok ())
      | none => match s.trySend pending.sender control with
        | none => (s, .error ⟨"attention_capacity", "live response queue is unavailable"⟩)
        | some observers => ({ s with
            observers := observers
            requests := s.requests.insert (response.run, response.requestId)
              { pending with submitted := some (holder, response) }
            marks := s.marks ++ [(pending.revoked, .queued)] }, .ok ())

/-! ## The host -/

/-- `AttentionState::sync_grants`. -/
def syncGrants (projection : Projection) (now : ℕ) : AttentionState :=
  let grants := s.grants.filter fun grant _ =>
    decide (grant.run = projection.run) && !projection.grantLive grant
  let revoked := s.revokeRequests fun key pending =>
    decide (key.1 = projection.run) && (!pending.liveIn projection now ||
      decide (s.current.get? (key.1, pending.request.binding.task) ≠ some pending.request.binding))
  { revoked with set := revoked.set ∪ grants.values.toFinset }.keepGrants

/-- `AttentionState::revoke_grants`. -/
def revokeGrants : AttentionState :=
  let revoked := s.revokeRequests fun _ _ => true
  { revoked with set := revoked.set ∪ s.grants.values.toFinset }

end AttentionState

/-! ## All calls -/

/-- The calls on the registry. A call of an observer that is gone is none. -/
inductive Call
  | observe (binding : RuntimeGrantBinding)
  | bind (id : ObserverId) (binding : Option RuntimeRequestBinding)
  | request (id : ObserverId) (request : RuntimeRequest) (now : ℕ) (delegated : RuntimeResponse)
  | poll (id : ObserverId)
  | result (id : ObserverId) (request : RuntimeRequest) (outcome : LiveResponseOutcome)
  | drop (id : ObserverId)
  | answer (admitted : Except HostRefusal Projection) (holder : AttachmentId)
      (response : LiveAttentionResponse) (now : ℕ)
  | sync (projection : Projection) (now : ℕ)
  | revoke

/-- The observer that makes the call. -/
def Call.observer? : Call → Option ObserverId
  | .bind id _ | .request id _ _ _ | .poll id | .result id _ _ | .drop id => some id
  | _ => none

variable (digest : RuntimeRequest → String)

/-- The state after a call of an observer. -/
def AttentionState.observed (s : AttentionState) (id : ObserverId) (observer : HostRunObserver) : Call → AttentionState
  | .bind _ binding => s.onRuntimeBinding observer.grant binding
  | .request _ request now delegated => (s.onRuntimeRequest digest id observer request now delegated).1
  | .poll _ => s.pollRuntimeResponse id observer
  | .result _ request outcome => s.onRuntimeResponseResult observer.grant request outcome
  | .drop _ => s.dropObserver id observer
  | _ => s

/-- The state after a call. -/
def AttentionState.call (s : AttentionState) (call : Call) : AttentionState :=
  match call with
  | .observe binding => s.runObserver binding
  | .answer admitted holder response now => (s.resolveAttention admitted holder response now).1
  | .sync projection now => s.syncGrants projection now
  | .revoke => s.revokeGrants
  | call => match call.observer? with
    | none => s
    | some id => match s.observers.get? id with
      | none => s
      | some observer => s.observed digest id observer call

end Kinewright.Attention
