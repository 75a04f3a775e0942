import Mathlib.Algebra.Order.Ring.Int
import Kinewright.Core.Operation

/-!
# Commands, journal entries and history values

The data of `actor.rs`, `journal.rs`, `history.rs` and `attachment.rs` that crosses the actor's
boundary. `u64` counters are natural numbers; where the source adds with `checked_add`, the model
adds with `checkedAdd`.
-/

namespace Kinewright.Core

variable {P : Payload}

/-- `checked_add` on a `u64`. -/
def checkedAdd (n m : ℕ) : Option ℕ := if n + m < 2 ^ 64 then some (n + m) else none

/-- `checked_sub` on an unsigned integer. -/
def checkedSub (n m : ℕ) : Option ℕ := if m ≤ n then some (n - m) else none

theorem checkedAdd_eq_some {n m k : ℕ} : checkedAdd n m = some k ↔ n + m < 2 ^ 64 ∧ k = n + m := by
  unfold checkedAdd
  by_cases h : n + m < 2 ^ 64
  · rw [if_pos h, Option.some.injEq]
    exact ⟨fun hk => ⟨h, hk.symm⟩, fun hk => hk.2.symm⟩
  · rw [if_neg h]
    exact ⟨nofun, fun hk => absurd hk.1 h⟩

/-- `TimelineRevision(u64)`. -/
abbrev TimelineRevision := ℕ

/-- `CommandToken(u64)`. -/
abbrev CommandToken := ℕ

/-- `ActorIdentity(u64)`. -/
abbrev ActorIdentity := ℕ

/-- The `TypeId` of a persistence owner's proof type. -/
abbrev OwnerId := ℕ

/-! ## Commands -/

inductive Query
  | document
  | snapshot
  | clip (id : ClipId)
  | opLog
  | appliedOperations
deriving DecidableEq

inductive Command (P : Payload)
  | do_ (operation : Operation P)
  | doBatch (operations : List (Operation P))
  | doBatchCoalesced (operations : List (Operation P)) (coalesceKey : String)
  | doIfRevision (expected : TimelineRevision) (operation : Operation P) (token : Option CommandToken)
  | doBatchIfRevision (expected : TimelineRevision) (operations : List (Operation P))
  | undo
  | redo
  | query (query : Query)
deriving DecidableEq

/-- `matches!(command, Command::Query(_))`. -/
def Command.isQuery : Command P → Bool
  | .query _ => true
  | _ => false

/-- The correlation token that a refusal echoes. -/
def Command.token : Command P → Option CommandToken
  | .doIfRevision _ _ token => token
  | _ => none

/-- An accepted command in the form that replays it. -/
inductive JournalCommand (P : Payload)
  | do_ (operation : Operation P)
  | doBatch (operations : List (Operation P))
  | doBatchCoalesced (operations : List (Operation P)) (coalesceKey : String)
  | undo
  | redo
deriving DecidableEq

/-- `impl From<JournalCommand> for Command`. -/
def JournalCommand.toCommand : JournalCommand P → Command P
  | .do_ operation => .do_ operation
  | .doBatch operations => .doBatch operations
  | .doBatchCoalesced operations coalesceKey => .doBatchCoalesced operations coalesceKey
  | .undo => .undo
  | .redo => .redo

/-! ## History values -/

/-- One undo or redo entry as it is exported. -/
structure GestureBoundary (P : Payload) where
  document : Document P
  operations : List (Operation P)
  coalesceKey : Option String
deriving DecidableEq

/-- Oldest entry first; the last redo entry is the next redo. -/
structure HistoryCursor (P : Payload) where
  undo : List (GestureBoundary P)
  redo : List (GestureBoundary P)
deriving DecidableEq

structure HistoryBatch (P : Payload) where
  order : ℕ
  command : JournalCommand P
  identityEffects : List (OperationIdentityEffect P)
  undoEntries : ℕ
  redoEntries : ℕ
deriving DecidableEq

structure HistorySnapshot (P : Payload) where
  floorOffset : ℕ
  baseline : Document P
  document : Document P
  batches : List (HistoryBatch P)
  cursor : HistoryCursor P
deriving DecidableEq

/-- `HistorySnapshot::applied_operations`. -/
def HistorySnapshot.appliedOperations (snapshot : HistorySnapshot P) : List (Operation P) :=
  snapshot.cursor.undo.flatMap GestureBoundary.operations

/-! ## Refusals -/

inductive CoreMutationRefusal
  | frozen
  | sealed
  | ownerRequired
  | manualPermitRequired
  | manualBackpressure
  | manualInputRequired
deriving DecidableEq

inductive HistoryError
  | mutationRefused (reason : CoreMutationRefusal)
  | captureChanged
  | saveInProgress
  | barrierInvariant
  | commitInvariant
  | capacity
  | corrupt
  | disconnected
deriving DecidableEq

/-- `ok_or`. -/
def okOr {α : Type*} (value : Option α) (error : HistoryError) : Except HistoryError α :=
  match value with
  | some value => .ok value
  | none => .error error

/-- What a `?` chain returns. -/
theorem bind_eq_ok {ε α β : Type} {x : Except ε α} {f : α → Except ε β} {b : β} :
    (x >>= f) = .ok b ↔ ∃ a, x = .ok a ∧ f a = .ok b := by
  rcases x with error | a
  · exact ⟨nofun, nofun⟩
  · exact ⟨fun h => ⟨a, rfl, h⟩, fun ⟨a', ha, h⟩ => by cases ha; exact h⟩

/-- What is returned behind an early error. -/
theorem guard_eq_ok {ε α : Type*} {p : Prop} [Decidable p] {error : ε} {x : Except ε α} {a : α} :
    (if p then .error error else x) = .ok a ↔ ¬ p ∧ x = .ok a := by
  by_cases h : p
  · rw [if_pos h]
    exact ⟨nofun, fun h' => absurd h h'.1⟩
  · rw [if_neg h]
    exact ⟨fun h' => ⟨h, h'⟩, fun h' => h'.2⟩

theorem okOr_eq_ok {α : Type*} {value : Option α} {error : HistoryError} {a : α} :
    okOr value error = .ok a ↔ value = some a := by
  rcases value with _ | b
  · exact ⟨nofun, nofun⟩
  · rw [okOr, Except.ok.injEq, Option.some.injEq]

inductive AttachmentState
  | live
  | frozen
  | sealed
deriving DecidableEq

/-! ## Save tickets and cuts -/

structure HistorySaveTag where
  destination : String
  parentDevice : ℕ
  parentInode : ℕ
  rootSha256 : String
  previousRootSha256 : Option String
deriving DecidableEq

structure PendingHistorySave where
  actor : ActorIdentity
  id : ℕ
  tag : Option HistorySaveTag
  ready : Bool
deriving DecidableEq

/-- The revision and history of one actor at one turn. -/
structure AcceptedCut (P : Payload) where
  actor : ActorIdentity
  revision : TimelineRevision
  history : HistorySnapshot P
deriving DecidableEq

/-- The publication identity that a manual encoder returns. -/
structure AcceptedHistory where
  sequence : ℕ
  batchId : String
  digest : String
  envelope : List UInt8
deriving DecidableEq

/-! ## Events -/

inductive QueryResult (P : Payload)
  | document (document : Document P)
  | snapshot (revision : TimelineRevision) (document : Document P)
  | clip (clip : Option (Clip P))
  | opLog (operations : List (Operation P))
  | appliedOperations (operations : List (Operation P))
deriving DecidableEq

inductive Event (P : Payload)
  | mutationRefused (reason : CoreMutationRefusal) (token : Option CommandToken)
  | undoBlockedBySave (floorOffset : ℕ)
  | documentChanged (doc : Document P) (revision : TimelineRevision)
      (lastOp : Option (Operation P)) (journalCommand : Option (JournalCommand P))
      (token : Option CommandToken)
  | opRejected (op : Operation P) (error : P.OpError) (token : Option CommandToken)
  | batchRejected (operations : List (Operation P)) (error : BatchError P)
  | revisionConflict (expected actual : TimelineRevision) (token : Option CommandToken)
  | queryResult (result : QueryResult P)
deriving DecidableEq

/-- The command an accepted event records, if it records one. -/
def Event.journaled : Event P → Option (JournalCommand P)
  | .documentChanged _ _ _ journalCommand _ => journalCommand
  | _ => none

/-- `matches!(event, Event::DocumentChanged { .. })`. -/
def Event.isDocumentChanged : Event P → Bool
  | .documentChanged .. => true
  | _ => false

end Kinewright.Core
