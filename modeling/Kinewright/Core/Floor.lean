import Kinewright.Core.Restore

/-!
# Save floors

A save may drop the oldest batches of the journal: `floor_history` and `find_floor_history` look for
a cut after which the suffix alone replays to the same document, the same redo stack and the undo
entries above the cut. `begin_floor` holds such a cut as a pending barrier while the save is written
and `settle_floor` commits or releases it.
-/

namespace Kinewright.Core

variable {P : Payload} [Rules P]

/-! ## Finding a floor -/

/-- `floor_from_prefix`: the history above the first `discard` batches, which replayed to `pre`. -/
def floorFromPrefix (before : HistorySnapshot P) (discard : ℕ) (pre : CoreState P) :
    Except HistoryError (HistorySnapshot P) :=
  let dropped := pre.undo.length
  if pre.redo ≠ [] ∨ dropped > before.cursor.undo.length ∨ (dropped = before.cursor.undo.length ∧
        before.cursor.undo.getLast?.any fun entry => entry.coalesceKey.isSome) then
    .error .corrupt
  else do
    let suffix ← (CoreState.new pre.document 0).replay (before.batches.drop discard)
    let after := suffix.history
    if after.document ≠ before.document ∨ after.cursor.undo ≠ before.cursor.undo.drop dropped ∨
        after.cursor.redo ≠ before.cursor.redo then
      .error .corrupt
    else do
      let floorOffset ← okOr (checkedAdd before.floorOffset discard) .capacity
      return { after with floorOffset }

/-- `floor_history`. -/
def floorHistory (before : HistorySnapshot P) (discard : ℕ) : Except HistoryError (HistorySnapshot P) :=
  if discard = 0 ∨ discard > before.batches.length then .error .corrupt
  else do
    let _ ← CoreState.restore before
    let pre ← (CoreState.new before.baseline 0).replay (before.batches.take discard)
    floorFromPrefix before discard pre

/-- One candidate of the search: the cut after `discard` batches, if the callbacks take it. -/
def floorCandidate (before : HistorySnapshot P) (mayFit : ℕ → ℕ → Document P → Bool)
    (accepts : HistorySnapshot P → Bool) (pre : CoreState P) (discard : ℕ) :
    Option (HistorySnapshot P) :=
  if pre.redo = [] ∧ mayFit discard pre.undo.length pre.document then
    match floorFromPrefix before discard pre with
    | .ok after => if accepts after then some after else none
    | .error _ => none
  else none

/-- The loop of `find_floor_history` over the batches that are left. Each callback is asked at most
once for each cut, so a closure with state of its own answers like a function. -/
def findFloorLoop (before : HistorySnapshot P) (mayFit : ℕ → ℕ → Document P → Bool)
    (accepts : HistorySnapshot P → Bool) (pre : CoreState P) (index : ℕ) :
    List (HistoryBatch P) → Except HistoryError (HistorySnapshot P)
  | [] => if { pre with floorOffset := before.floorOffset }.history ≠ before then .error .corrupt else .error .capacity
  | batch :: batches =>
    let (event, pre) := pre.executeCommand batch.command.toCommand
    if ¬ event.isDocumentChanged ∨ pre.batches.getLast? ≠ some batch then .error .corrupt
    else match floorCandidate before mayFit accepts pre (index + 1) with
      | some after => do
        -- finish the validation from the replayed prefix
        let complete ← pre.replay batches
        if { complete with floorOffset := before.floorOffset }.history ≠ before then
          .error .corrupt
        else return after
      | none => findFloorLoop before mayFit accepts pre (index + 1) batches

/-- `find_floor_history`. -/
def findFloorHistory (before : HistorySnapshot P) (mayFit : ℕ → ℕ → Document P → Bool)
    (accepts : HistorySnapshot P → Bool) : Except HistoryError (HistorySnapshot P) :=
  match validateDocument before.baseline with
  | .error _ => .error .corrupt
  | .ok () =>
    findFloorLoop before mayFit accepts (CoreState.new before.baseline 0) 0 before.batches

/-- The result of `HistoryTransition::recovery_close`. The private actor that it restores into has
no other client, so its two requests are plain executions. -/
def recoveryClose (before reconciled : HistorySnapshot P) : Except HistoryError (HistorySnapshot P) :=
  if before ≠ reconciled then .error .corrupt
  else do
    let candidate ← CoreState.restore before
    let openKey := before.cursor.undo.getLast?.any fun entry => entry.coalesceKey.isSome
    if openKey ∧ before.cursor.redo ≠ [] then .error .corrupt
    else do
      let candidate := if openKey then
          ((candidate.executeCommand .undo).2.executeCommand .redo).2
        else candidate
      let after := candidate.history
      if before.document ≠ after.document ∨ before.appliedOperations ≠ after.appliedOperations ∨
          before.cursor.undo.length ≠ after.cursor.undo.length ∨
          before.cursor.redo ≠ after.cursor.redo then
        .error .corrupt
      else return after

/-- The three constructors of a `HistoryTransition`; its fields are private to the crate. -/
inductive Produced : HistorySnapshot P → HistorySnapshot P → Prop
  | floor {before after : HistorySnapshot P} (discard : ℕ)
      (h : floorHistory before discard = .ok after) : Produced before after
  | findFloor {before after : HistorySnapshot P} (mayFit : ℕ → ℕ → Document P → Bool)
      (accepts : HistorySnapshot P → Bool)
      (h : findFloorHistory before mayFit accepts = .ok after) : Produced before after
  | recoveryClose {before after : HistorySnapshot P} (reconciled : HistorySnapshot P)
      (h : recoveryClose before reconciled = .ok after) : Produced before after

/-- `HistoryTransition`. -/
structure HistoryTransition (P : Payload) [Rules P] where
  before : HistorySnapshot P
  after : HistorySnapshot P
  produced : Produced before after

/-! ## The barrier -/

namespace CoreState

/-- `CoreState::begin_floor`. -/
def beginFloor (s : CoreState P) (actor : ActorIdentity) (transition : HistoryTransition P) :
    Except HistoryError (ℕ × CoreState P) :=
  match s.pendingFloor with
  | some pending => .error (if pending.save.ready then .barrierInvariant else .saveInProgress)
  | none =>
    if s.history ≠ transition.before then .error .captureChanged
    else if transition.after.floorOffset ≤ s.floorOffset then .error .barrierInvariant
    else do
      let id ← okOr (checkedAdd s.nextFloorId 1) .capacity
      return (id, { s with
          nextFloorId := id
          pendingFloor := some
            { save := { actor, id, tag := none, ready := false }
              offset := transition.after.floorOffset
              discard := transition.before.batches.length - transition.after.batches.length
              depth :=
                transition.before.cursor.undo.length - transition.after.cursor.undo.length
              baseline := transition.after.baseline } })

/-- The commit of `settle_floor`: replay the suffix and compare. -/
def commitFloor (s : CoreState P) (pending : PendingFloor P) : Except HistoryError (CoreState P) :=
  if s.batches.length < pending.discard then .error .corrupt
  else do
    let candidate ← { new pending.baseline 0 with floorOffset := pending.offset }.replay
      (s.batches.drop pending.discard)
    if candidate.document ≠ s.document ∨ s.undo.length < pending.depth ∨
        candidate.undo ≠ s.undo.drop pending.depth ∨ candidate.redo ≠ s.redo then
      .error .corrupt
    else do
      let revision ← okOr (checkedAdd s.revision 1) .capacity
      let historyEpoch ← okOr (checkedAdd s.historyEpoch 1) .capacity
      return { candidate with revision, nextFloorId := s.nextFloorId, historyEpoch }

/-- The state without its barrier. -/
def releaseFloor (s : CoreState P) : CoreState P := { s with pendingFloor := none }

/-- `CoreState::settle_floor`. The barrier is released even when the commit fails. -/
def settleFloor (s : CoreState P) (id : ℕ) (commit : Bool) : Except HistoryError Unit × CoreState P :=
  if id ≤ s.nextFloorId ∧ s.pendingFloor.all fun pending => pending.save.id ≠ id then (.ok (), s)
  else match s.pendingFloor with
    | none => (.error .barrierInvariant, s)
    | some pending =>
      if pending.save.id ≠ id then (.error .barrierInvariant, s)
      else if commit then
        match s.commitFloor pending with
        | .ok candidate => (.ok (), candidate)
        | .error _ => (.error .commitInvariant, s.releaseFloor)
      else (.ok (), s.releaseFloor)

/-- `TagFloor`: name the root that the pending save writes, and mark it ready to be settled. -/
def tagFloor (s : CoreState P) (id : ℕ) (tag : Option HistorySaveTag) (ready : Bool) :
    Except HistoryError (CoreState P) :=
  match s.pendingFloor with
  | none => .error .barrierInvariant
  | some pending =>
    if pending.save.id ≠ id then .error .barrierInvariant
    else if (pending.save.ready ∧ ¬ ready) ∨ (tag.any fun tag => pending.save.tag.any fun old => old ≠ tag) then
      .error .barrierInvariant
    else
      let tag := tag.or pending.save.tag
      if ready ∧ tag.isNone then .error .barrierInvariant
      else
        .ok { s with
          pendingFloor := some { pending with save := { pending.save with tag, ready } } }

/-- How `RestoreHistory` and `InstallFrozen` put a restored candidate in place of the state. -/
def install (s candidate : CoreState P) : Except HistoryError (CoreState P) := do
  let historyEpoch ← okOr (checkedAdd s.historyEpoch 1) .capacity
  let revision ← okOr (checkedAdd s.revision 1) .capacity
  return { candidate with historyEpoch, nextFloorId := s.nextFloorId, revision }

end CoreState

end Kinewright.Core
