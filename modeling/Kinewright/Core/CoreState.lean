import Kinewright.Core.History
import Kinewright.Lib.UndoStack

/-!
# The core state and its command executor

`CoreState` of `actor.rs` with its mutators, from `do_operation` to `execute_command`. A function
that takes `&mut self` returns the new state; on an error the state is the one it was given.

The stacks are lists in the order of the source's vectors: oldest entry first, the top entry last.
The revision counter is unbounded here. `increment_revision` panics at `u64::MAX` in the source, so
a run of the source never sees the difference.
-/

namespace Kinewright.Core

variable {P : Payload}

/-- `HistoryEntry`: one undo or redo entry, with the gesture that still owns it. -/
abbrev HistoryEntry (P : Payload) := UndoStack.Entry (Document P) (Operation P) String

/-- The history value of an entry, as `CoreState::history` exports it. -/
def boundary (e : HistoryEntry P) : GestureBoundary P :=
  { document := e.document, operations := e.operations, coalesceKey := e.coalesceKey }

theorem boundary_injective : Function.Injective (boundary (P := P)) := by
  rintro ⟨d, ops, key⟩ ⟨d', ops', key'⟩ h
  simpa [boundary] using h

structure PendingFloor (P : Payload) where
  save : PendingHistorySave
  offset : ℕ
  discard : ℕ
  depth : ℕ
  baseline : Document P
deriving DecidableEq

structure CoreState (P : Payload) where
  historyEpoch : ℕ
  nextFloorId : ℕ
  pendingFloor : Option (PendingFloor P)
  floorOffset : ℕ
  baseline : Document P
  batches : List (HistoryBatch P)
  identityEffects : List (OperationIdentityEffect P)
  document : Document P
  revision : TimelineRevision
  undo : List (HistoryEntry P)
  redo : List (HistoryEntry P)
  opLog : List (Operation P)
deriving DecidableEq

namespace CoreState

/-- `CoreState::new`. -/
def new (document : Document P) (revision : TimelineRevision) : CoreState P :=
  { historyEpoch := 0
    nextFloorId := 0
    pendingFloor := none
    floorOffset := 0
    baseline := document
    batches := []
    identityEffects := []
    document
    revision
    undo := []
    redo := []
    opLog := [] }

/-- `CoreState::history`. -/
def history (s : CoreState P) : HistorySnapshot P :=
  { floorOffset := s.floorOffset
    baseline := s.baseline
    document := s.document
    batches := s.batches
    cursor :=
      { undo := s.undo.map boundary
        redo := s.redo.map boundary } }

/-- `increment_revision`. -/
def incrementRevision (s : CoreState P) : CoreState P := { s with revision := s.revision + 1 }

/-! ## Edits -/

section Edits

variable [Rules P]

/-- What the three edits share: apply the batch, install the new undo stack, drop the redo stack and
log the operations. -/
def edit (s : CoreState P) (undo : List (HistoryEntry P)) (operations : List (Operation P)) :
    Except (BatchError P) (Document P × CoreState P) :=
  match applyBatchObserved s.document operations with
  | .error error => .error error
  | .ok (after, effects) =>
    let s := incrementRevision
      { s with
        identityEffects := effects
        undo
        redo := []
        opLog := s.opLog ++ operations
        document := after }
    .ok (s.document, s)

theorem edit_singleton_ne_empty (s : CoreState P) (undo : List (HistoryEntry P))
    (operation : Operation P) : s.edit undo [operation] ≠ .error .empty := by
  have hne := applyBatchObserved_singleton_ne_empty s.document operation
  intro h
  unfold edit at h
  cases happly : applyBatchObserved s.document [operation] with
  | error error =>
    simp only [happly, Except.error.injEq] at h
    exact hne (by rw [happly, h])
  | ok result => simp [happly] at h

/-- `do_operation`. -/
def doOperation (s : CoreState P) (operation : Operation P) : Except P.OpError (Document P × CoreState P) :=
  let undo := s.undo ++
    [{ document := s.document, operations := [operation], coalesceKey := none }]
  match h : s.edit undo [operation] with
  | .error (.operationFailed _ error) => .error error
  | .error .empty => (s.edit_singleton_ne_empty undo operation h).elim
  | .ok result => .ok result

/-- `do_batch`. -/
def doBatch (s : CoreState P) (operations : List (Operation P)) : Except (BatchError P) (Document P × CoreState P) :=
  s.edit (s.undo ++ [{ document := s.document, operations, coalesceKey := none }]) operations

/-- `do_batch_coalesced`. The newest entry takes the operations when it belongs to the same gesture,
and keeps its pre-gesture document. -/
def doBatchCoalesced (s : CoreState P) (operations : List (Operation P)) (coalesceKey : String) :
    Except (BatchError P) (Document P × CoreState P) :=
  s.edit (UndoStack.coalesceOnto s.undo s.document operations coalesceKey) operations

end Edits

/-! ## Undo and redo -/

/-- `CoreState::undo`. A reused key must not merge across the undo boundary, so the exposed entry
closes its gesture. -/
def undoEntry (s : CoreState P) : CoreState P :=
  match s.undo.getLast? with
  | none => s
  | some entry =>
    incrementRevision
      { s with
        redo := s.redo ++
          [{ document := s.document, operations := entry.operations, coalesceKey := none }]
        undo := s.undo.dropLast.modifyLast UndoStack.closeGesture
        document := entry.document }

/-- `CoreState::redo`. -/
def redoEntry (s : CoreState P) : CoreState P :=
  match s.redo.getLast? with
  | none => s
  | some entry =>
    incrementRevision
      { s with
        undo := s.undo ++
          [{ document := s.document, operations := entry.operations, coalesceKey := none }]
        redo := s.redo.dropLast
        document := entry.document }

/-- `CoreState::query`. -/
def query (s : CoreState P) : Query → QueryResult P
  | .document => .document s.document
  | .snapshot => .snapshot s.revision s.document
  | .clip id => .clip (s.document.clip id)
  | .opLog => .opLog s.opLog
  | .appliedOperations => .appliedOperations (s.undo.flatMap UndoStack.Entry.operations)

/-! ## The executor -/

section Executor

variable [Rules P]

/-- `execute_operation`. -/
def executeOperation (s : CoreState P) (operation : Operation P) (token : Option CommandToken) :
    Event P × CoreState P :=
  let operation := operation.canonicalizeLegacyEffectNames
  match s.doOperation operation with
  | .ok (doc, s) =>
    (.documentChanged doc s.revision (some operation) (some (.do_ operation)) token, s)
  | .error error => (.opRejected operation error token, s)

/-- `execute_batch`. -/
def executeBatch (s : CoreState P) (operations : List (Operation P)) : Event P × CoreState P :=
  let operations := operations.map Operation.canonicalizeLegacyEffectNames
  match s.doBatch operations with
  | .ok (doc, s) => (.documentChanged doc s.revision none (some (.doBatch operations)) none, s)
  | .error error => (.batchRejected operations error, s)

/-- `execute_batch_coalesced`. -/
def executeBatchCoalesced (s : CoreState P) (operations : List (Operation P))
    (coalesceKey : String) : Event P × CoreState P :=
  let operations := operations.map Operation.canonicalizeLegacyEffectNames
  match s.doBatchCoalesced operations coalesceKey with
  | .ok (doc, s) =>
    (.documentChanged doc s.revision none (some (.doBatchCoalesced operations coalesceKey)) none, s)
  | .error error => (.batchRejected operations error, s)

/-- `revision_conflict`. -/
def revisionConflict (s : CoreState P) (expected : TimelineRevision) (token : Option CommandToken) : Option (Event P) :=
  if expected ≠ s.revision then some (.revisionConflict expected s.revision token) else none

/-- `execute_command_inner`. -/
def executeCommandInner (s : CoreState P) : Command P → Event P × CoreState P
  | .do_ operation => s.executeOperation operation none
  | .doBatch operations => s.executeBatch operations
  | .doBatchCoalesced operations coalesceKey => s.executeBatchCoalesced operations coalesceKey
  | .doIfRevision expected operation token => match s.revisionConflict expected token with
    | some event => (event, s)
    | none => s.executeOperation operation token
  | .doBatchIfRevision expected operations => match s.revisionConflict expected none with
    | some event => (event, s)
    | none => s.executeBatch operations
  | .undo =>
    let s := s.undoEntry
    (.documentChanged s.document s.revision none (some .undo) none, s)
  | .redo =>
    let s := s.redoEntry
    (.documentChanged s.document s.revision none (some .redo) none, s)
  | .query query => (.queryResult (s.query query), s)

/-- Record an accepted command with what it did. -/
def recordBatch (s : CoreState P) (command : JournalCommand P) : CoreState P :=
  { s with
    batches := s.batches ++
      [{ order := s.batches.length
         command
         identityEffects := s.identityEffects
         undoEntries := s.undo.length
         redoEntries := s.redo.length }]
    identityEffects := [] }

/-- `execute_command`. -/
def executeCommand (s : CoreState P) (command : Command P) : Event P × CoreState P :=
  let (event, s) := executeCommandInner { s with identityEffects := [] } command
  match event.journaled with
  | some command => (event, s.recordBatch command)
  | none => (event, s)

/-- The refusal of a command by the attachment. -/
def attachmentRefusal (attachment : AttachmentState) (command : Command P) : Event P :=
  .mutationRefused (if attachment = .sealed then .sealed else .frozen) command.token

/-- Whether an `Undo` would cross the pending save's floor. -/
def undoBlocked (s : CoreState P) : Option (PendingFloor P) :=
  s.pendingFloor.filter fun pending => s.undo.length ≤ pending.depth

/-- `execute_actor_command`. -/
def executeActorCommand (s : CoreState P) (attachment : AttachmentState) (command : Command P) :
    Event P × CoreState P :=
  if ¬ command.isQuery ∧ attachment ≠ .live then (attachmentRefusal attachment command, s)
  else match command, s.undoBlocked with
    | .undo, some pending => (.undoBlockedBySave pending.offset, s)
    | _, _ => s.executeCommand command

/-- The state after a list of commands, whatever their outcomes. -/
def executeAll (s : CoreState P) (commands : List (Command P)) : CoreState P :=
  commands.foldl (fun s command => (s.executeCommand command).2) s

end Executor

end CoreState

end Kinewright.Core
