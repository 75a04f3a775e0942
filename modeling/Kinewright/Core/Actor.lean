import Kinewright.Core.ManualRuns
import Kinewright.Core.SaveBarrier

/-!
# The core actor

`run_actor` of `actor.rs`: one thread owns the core state, the attachment and the manual ingress, and
answers one message a turn. `ActorState.turn` is the body of its loop, with one definition for each
message that can change something. The delivery of events to subscribers is left out: it never
changes the actor.
-/

namespace Kinewright.Core

variable {P : Payload}

/-- `HistoryChangeId`. -/
structure HistoryChangeId where
  revision : TimelineRevision
  batchCount : ℕ
deriving DecidableEq

/-- `CoreState::history_change_id`. -/
def CoreState.historyChangeId (s : CoreState P) : HistoryChangeId :=
  { revision := s.revision, batchCount := s.batches.length }

/-- What the loop of `run_actor` owns. -/
structure ActorState (P : Payload) where
  identity : ActorIdentity
  state : CoreState P
  owner : Option OwnerId
  attachment : AttachmentState
  manual : Option ManualIngress
  manualGeneration : ℕ
deriving DecidableEq

/-- `CoreMessage`, without its reply channels. A manual command comes with the answers that the
bound encoder will give in this turn, and a recovery with the value of its live flag. -/
inductive CoreMessage (P : Payload) [Rules P]
  | bindManual (requested : OwnerId) (recovery : Option (AcceptedCut P × Bool))
  | manualPending (generation : ℕ)
  | manualAck (requested : OwnerId) (generation : ℕ) (presented : List AcceptedHistory)
  | manualCommand (generation : ℕ) (encode : Encoder P) (command : Command P)
  | bindOwner (requested : OwnerId)
  | attachmentState
  | captureCut (requested : OwnerId) (freeze : Bool)
  | finishAttachment (requested : OwnerId) (cut : AcceptedCut P) (sealing : Bool)
  | pendingFloor
  | tagFloor (requested : OwnerId) (id : ℕ) (tag : Option HistorySaveTag) (ready : Bool)
  | beginFloor (requested : OwnerId) (transition : HistoryTransition P)
  | settleFloor (requested : OwnerId) (id : ℕ) (expected : Option PendingHistorySave) (commit : Bool)
  | historyChangeId
  | exportHistory
  | installFrozen (requested : OwnerId) (cut : AcceptedCut P) (after : HistorySnapshot P)
      (pending : List AcceptedHistory) (checkpoint : Bool)
  | restoreHistory (requested : Option OwnerId) (history : HistorySnapshot P) (expected : Option (HistorySnapshot P))
  | observeHistory
  | subscribe
  | command (command : Command P)
  | request (command : Command P)

/-- The reply of a turn. -/
inductive Reply (P : Payload)
  | none
  | done (result : Except HistoryError Unit)
  | generation (result : Except HistoryError ℕ)
  | pending (result : Except HistoryError (List AcceptedHistory))
  | event (event : Event P)
  | attachment (attachment : AttachmentState)
  | cut (result : Except HistoryError (AcceptedCut P))
  | pendingSave (save : Option PendingHistorySave)
  | floor (result : Except HistoryError ℕ)
  | changeId (id : HistoryChangeId)
  | exported (id : HistoryChangeId) (history : HistorySnapshot P)
  | observed (revision : TimelineRevision) (history : HistorySnapshot P) (opLog : List (Operation P))

/-- A turn: the reply, the actor after it, and the item that it admitted, if it admitted one. -/
structure Turn (P : Payload) where
  reply : Reply P
  actor : ActorState P
  admitted : Option (EncodeRequest P × AcceptedHistory)

namespace ActorState

/-- The actor of `Core::spawn_at`, which validates the document. -/
def spawn (identity : ActorIdentity) (document : Document P) (revision : TimelineRevision) : ActorState P :=
  { identity
    state := .new document revision
    owner := none
    attachment := .live
    manual := none
    manualGeneration := 0 }

/-- `authorize_attachment`. -/
def authorizeAttachment (a : ActorState P) (requested : Option OwnerId) : Except HistoryError Unit :=
  if a.attachment = .sealed then .error (.mutationRefused .sealed)
  else if a.owner.isNone ∨ a.owner ≠ requested then .error (.mutationRefused .ownerRequired)
  else .ok ()

/-- The cut of this turn. -/
def acceptedCut (a : ActorState P) : AcceptedCut P :=
  { actor := a.identity, revision := a.state.revision, history := a.state.history }

/-- Whether the presented cut is the one of this turn. -/
def Holds (a : ActorState P) (cut : AcceptedCut P) : Prop :=
  cut.actor = a.identity ∧ cut.revision = a.state.revision ∧ cut.history = a.state.history

instance (a : ActorState P) (cut : AcceptedCut P) : Decidable (a.Holds cut) := inferInstanceAs (Decidable (_ ∧ _ ∧ _))

/-- The ingress of the generation that a permit names. -/
def permitted (a : ActorState P) (generation : ℕ) : Option ManualIngress :=
  a.manual.filter fun m => generation = m.generation

/-- An actor with the new ingress of a bound manual producer. -/
def bindManual [Wire P] (a : ActorState P) (requested : OwnerId)
    (recovery : Option (AcceptedCut P × Bool)) : Except HistoryError (ℕ × ActorState P) := do
  a.authorizeAttachment (some requested)
  let validState : Bool := match recovery with
    | some (cut, live) => a.attachment = .frozen ∧ live ∧ a.Holds cut
    | none => a.attachment = .live
  if ¬ validState ∨ (a.manual.any fun m => m.pending ≠ []) ∨ a.state.pendingFloor.isSome then
    .error .barrierInvariant
  else do
    let generation ← okOr (checkedAdd a.manualGeneration 1) .capacity
    let ingress ← ManualIngress.new a.state generation
    return (generation,
      { a with manualGeneration := generation, manual := some ingress, attachment := .live })

/-- `ManualAck`. -/
def manualAck [Wire P] (a : ActorState P) (requested : OwnerId) (generation : ℕ)
    (presented : List AcceptedHistory) : Except HistoryError Unit × ActorState P :=
  match a.permitted generation with
  | none => (.error .barrierInvariant, a)
  | some m =>
    if a.owner ≠ some requested then (.error .barrierInvariant, a)
    else
      let (reply, m) := m.acknowledge P presented
      (reply, { a with manual := some m })

/-- `BindOwner`. -/
def bindOwner (a : ActorState P) (requested : OwnerId) : Except HistoryError (Unit × ActorState P) :=
  if a.owner.all fun existing => existing = requested then
    .ok ((), { a with owner := some requested })
  else .error .barrierInvariant

/-- `CaptureCut`. -/
def captureCut (a : ActorState P) (requested : OwnerId) (freeze : Bool) :
    Except HistoryError (AcceptedCut P × ActorState P) := do
  a.authorizeAttachment (some requested)
  return (a.acceptedCut, if freeze then { a with attachment := .frozen } else a)

/-- `FinishAttachment`: seal or resume a frozen actor at the presented cut. -/
def finishAttachment (a : ActorState P) (requested : OwnerId) (cut : AcceptedCut P) (sealing : Bool) :
    Except HistoryError (Unit × ActorState P) := do
  a.authorizeAttachment (some requested)
  if ¬ a.Holds cut then .error .captureChanged
  else if a.attachment ≠ .frozen then .error .barrierInvariant
  else return ((), { a with attachment := if sealing then .sealed else .live })

/-- `TagFloor`. -/
def tagFloor (a : ActorState P) (requested : OwnerId) (id : ℕ) (tag : Option HistorySaveTag)
    (ready : Bool) : Except HistoryError (Unit × ActorState P) := do
  a.authorizeAttachment (some requested)
  let state ← a.state.tagFloor id tag ready
  return ((), { a with state })

section Floors

variable [Rules P]

/-- `BeginFloor`. -/
def beginFloor (a : ActorState P) (requested : OwnerId) (transition : HistoryTransition P) :
    Except HistoryError (ℕ × ActorState P) := do
  a.authorizeAttachment (some requested)
  if a.manual.isSome then .error (.mutationRefused .manualPermitRequired)
  else do
    let (id, state) ← a.state.beginFloor a.identity transition
    return (id, { a with state })

/-- `SettleFloor`. -/
def settleFloor (a : ActorState P) (requested : OwnerId) (id : ℕ)
    (expected : Option PendingHistorySave) (commit : Bool) :
    Except HistoryError Unit × ActorState P :=
  match a.authorizeAttachment (some requested) with
  | .error error => (.error error, a)
  | .ok () =>
    if expected.any fun save =>
        save.actor ≠ a.identity ∨ a.state.pendingFloor.map (fun pending => pending.save) ≠ some save then
      (.error .barrierInvariant, a)
    else
      let (reply, state) := a.state.settleFloor id commit
      (reply, { a with state })

/-- The transition that `InstallFrozen` accepts without a checkpoint: the floor that the presented
history names, and then at most a recovery close. -/
def frozenTransition (cut : AcceptedCut P) (after : HistorySnapshot P) (checkpoint : Bool) : Except HistoryError Unit :=
  if checkpoint then .ok ()
  else do
    let discard ← okOr (checkedSub after.floorOffset cut.history.floorOffset) .corrupt
    let floored ← if discard = 0 then .ok cut.history else floorHistory cut.history discard
    if floored = after then return ()
    else do
      let closed ← recoveryClose floored floored
      if closed ≠ after then .error .corrupt else return ()

/-- `InstallFrozen`: the fence stays, every manual permit dies. -/
def installFrozen (a : ActorState P) (requested : OwnerId) (cut : AcceptedCut P)
    (after : HistorySnapshot P) (pending : List AcceptedHistory) (checkpoint : Bool) :
    Except HistoryError (AcceptedCut P × ActorState P) := do
  a.authorizeAttachment (some requested)
  if a.attachment ≠ .frozen ∨ ¬ a.Holds cut ∨ a.state.pendingFloor.isSome ∨
      a.manual.elim [] ManualIngress.pending ≠ pending then
    .error .captureChanged
  else if checkpoint ∧ (a.manual.isSome ∨ pending ≠ []) then .error .captureChanged
  else do
    frozenTransition cut after checkpoint
    let candidate ← CoreState.restore after
    let state ← a.state.install candidate
    let a := { a with state, manual := none }
    return (a.acceptedCut, a)

/-- Whether `RestoreHistory` may go on to restore. -/
def restoreAdmitted (a : ActorState P) (requested : Option OwnerId)
    (expected : Option (HistorySnapshot P)) : Except HistoryError Unit :=
  if a.attachment = .sealed then .error (.mutationRefused .sealed)
  else if a.attachment = .frozen then .error (.mutationRefused .frozen)
  else if a.manual.isSome then .error (.mutationRefused .manualPermitRequired)
  else if a.state.pendingFloor.isSome then .error .saveInProgress
  else if a.owner.isSome ∧ a.owner ≠ requested then .error (.mutationRefused .ownerRequired)
  else if expected.any fun before => a.state.history ≠ before then .error .corrupt
  else .ok ()

/-- `RestoreHistory`. -/
def restoreHistory (a : ActorState P) (requested : Option OwnerId) (history : HistorySnapshot P)
    (expected : Option (HistorySnapshot P)) : Except HistoryError (Unit × ActorState P) := do
  a.restoreAdmitted requested expected
  let candidate ← CoreState.restore history
  let state ← a.state.install candidate
  return ((), { a with state })

/-- `Command` and `Request`: while a manual producer is bound, only queries pass. -/
def plainCommand (a : ActorState P) (command : Command P) : Event P × ActorState P :=
  if a.manual.isSome ∧ ¬ command.isQuery then
    (manualRefusal command .manualPermitRequired, a)
  else
    let (event, state) := a.state.executeActorCommand a.attachment command
    (event, { a with state })

variable [Wire P]

/-- `ManualCommand`. -/
def manualCommand (a : ActorState P) (generation : ℕ) (encode : Encoder P) (command : Command P) : Turn P :=
  match a.permitted generation with
  | none =>
    { reply := .event (manualRefusal command .manualPermitRequired), actor := a
      admitted := none }
  | some m =>
    let admission := m.execute encode a.state a.attachment command
    { reply := .event admission.event
      actor := { a with state := admission.state, manual := some admission.ingress }
      admitted := admission.admitted }

/-- The turn of a message that is answered with a result and changes the actor only on success. -/
def answer {α : Type} (a : ActorState P) (reply : Except HistoryError α → Reply P)
    (result : Except HistoryError (α × ActorState P)) : Turn P :=
  match result with
  | .ok (value, a') => { reply := reply (.ok value), actor := a', admitted := none }
  | .error error => { reply := reply (.error error), actor := a, admitted := none }

/-- One turn of `run_actor`. -/
def turn (a : ActorState P) : CoreMessage P → Turn P
  | .bindManual requested recovery => a.answer .generation (a.bindManual requested recovery)
  | .manualPending generation =>
    { reply := .pending (okOr ((a.permitted generation).map ManualIngress.pending)
        .barrierInvariant)
      actor := a
      admitted := none }
  | .manualAck requested generation presented =>
    let (reply, a) := a.manualAck requested generation presented
    { reply := .done reply, actor := a, admitted := none }
  | .manualCommand generation encode command => a.manualCommand generation encode command
  | .bindOwner requested => a.answer .done (a.bindOwner requested)
  | .attachmentState => { reply := .attachment a.attachment, actor := a, admitted := none }
  | .captureCut requested freeze => a.answer .cut (a.captureCut requested freeze)
  | .finishAttachment requested cut sealing =>
    a.answer .done (a.finishAttachment requested cut sealing)
  | .pendingFloor =>
    { reply := .pendingSave (a.state.pendingFloor.map fun pending => pending.save), actor := a
      admitted := none }
  | .tagFloor requested id tag ready => a.answer .done (a.tagFloor requested id tag ready)
  | .beginFloor requested transition => a.answer .floor (a.beginFloor requested transition)
  | .settleFloor requested id expected commit =>
    let (reply, a) := a.settleFloor requested id expected commit
    { reply := .done reply, actor := a, admitted := none }
  | .historyChangeId =>
    { reply := .changeId a.state.historyChangeId, actor := a, admitted := none }
  | .exportHistory =>
    { reply := .exported a.state.historyChangeId a.state.history, actor := a, admitted := none }
  | .installFrozen requested cut after pending checkpoint =>
    a.answer .cut (a.installFrozen requested cut after pending checkpoint)
  | .restoreHistory requested history expected =>
    a.answer .done (a.restoreHistory requested history expected)
  | .observeHistory =>
    { reply := .observed a.state.revision a.state.history a.state.opLog, actor := a
      admitted := none }
  | .subscribe =>
    { reply := .event (.documentChanged a.state.document a.state.revision none none none)
      actor := a
      admitted := none }
  | .command command =>
    { reply := .none, actor := (a.plainCommand command).2, admitted := none }
  | .request command =>
    let (event, a) := a.plainCommand command
    { reply := .event event, actor := a, admitted := none }

/-- The actor after a list of messages. -/
def run (a : ActorState P) (messages : List (CoreMessage P)) : ActorState P :=
  messages.foldl (fun a message => (a.turn message).actor) a

end Floors

end ActorState

end Kinewright.Core
