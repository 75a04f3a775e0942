import Kinewright.Core.CoreState

/-!
# What an accepted command does

The executor of `actor.rs` seen from the journal. A command has a journal form (canonical, with its
revision gate checked and dropped), a journal form performs one move of the undo and redo stacks,
and `executeCommand` is exactly that: it accepts the form and records it, or it changes nothing.
Everything later about runs of commands rests on `executeCommand_cases` alone.
-/

namespace Kinewright.Core

open Operation UndoStack JournalCommand

variable {P : Payload}

/-- A move of the stacks of documents. -/
abbrev HistoryMove (P : Payload) := UndoStack.Move (Document P) (Operation P) String

/-- The form in which a state at `revision` records the command, if nothing else refuses it. -/
def Command.journalForm (revision : TimelineRevision) : Command P → Option (JournalCommand P)
  | .do_ operation => some (.do_ operation.canonicalizeLegacyEffectNames)
  | .doBatch operations => some (.doBatch (operations.map canonicalizeLegacyEffectNames))
  | .doBatchCoalesced operations coalesceKey =>
    some (.doBatchCoalesced (operations.map canonicalizeLegacyEffectNames) coalesceKey)
  | .doIfRevision expected operation _ =>
    if expected = revision then some (.do_ operation.canonicalizeLegacyEffectNames) else none
  | .doBatchIfRevision expected operations => if expected = revision then
      some (.doBatch (operations.map canonicalizeLegacyEffectNames))
    else none
  | .undo => some .undo
  | .redo => some .redo
  | .query _ => none

/-- A journal command whose operations are canonical already. -/
def JournalCommand.Canonical : JournalCommand P → Prop
  | .do_ operation => operation.canonicalizeLegacyEffectNames = operation
  | .doBatch operations | .doBatchCoalesced operations _ => operations.map canonicalizeLegacyEffectNames = operations
  | .undo | .redo => True

/-- The operation that an accepted event names. -/
def JournalCommand.lastOp : JournalCommand P → Option (Operation P)
  | .do_ operation => some operation
  | _ => none

variable {revision : TimelineRevision} {command : Command P}

theorem Command.journalForm_canonical {c : JournalCommand P}
    (h : command.journalForm revision = some c) : c.Canonical := by
  cases command <;>
    simp only [journalForm, Option.ite_none_right_eq_some, Option.some.injEq, reduceCtorEq] at h
  case do_ operation => rw [← h]; exact operation.canonicalizeLegacyEffectNames_idem
  case doBatch operations => rw [← h]; exact map_canonicalizeLegacyEffectNames_idem operations
  case doBatchCoalesced operations key =>
    rw [← h]; exact map_canonicalizeLegacyEffectNames_idem operations
  case doIfRevision expected operation token =>
    rw [← h.2]; exact operation.canonicalizeLegacyEffectNames_idem
  case doBatchIfRevision expected operations =>
    rw [← h.2]; exact map_canonicalizeLegacyEffectNames_idem operations
  case undo => rw [← h]; trivial
  case redo => rw [← h]; trivial

/-- A query is never recorded. -/
theorem Command.journalForm_of_isQuery (h : command.isQuery) (revision : TimelineRevision) :
    command.journalForm revision = none := by
  cases command with
  | query query => rfl
  | _ => cases h

/-- Only an `Undo` is recorded as one. -/
theorem Command.journalForm_eq_undo (h : command.journalForm revision = some .undo) : command = .undo := by
  cases command <;> simp [journalForm] at h ⊢

/-- Only a `Redo` is recorded as one. -/
theorem Command.journalForm_eq_redo (h : command.journalForm revision = some .redo) : command = .redo := by
  cases command <;> simp [journalForm] at h ⊢

/-- The journal form of a recorded command does not look at the revision. -/
theorem JournalCommand.journalForm_toCommand (c : JournalCommand P) (revision revision' : TimelineRevision) :
    c.toCommand.journalForm revision = c.toCommand.journalForm revision' := by
  cases c <;> rfl

/-- A recorded command is its own journal form at every revision. -/
theorem JournalCommand.Canonical.journalForm {c : JournalCommand P} (h : c.Canonical)
    (revision : TimelineRevision) : c.toCommand.journalForm revision = some c := by
  cases c with
  | do_ operation => simp [toCommand, Command.journalForm, show _ = operation from h]
  | doBatch operations | doBatchCoalesced operations key =>
    simp [toCommand, Command.journalForm, show _ = operations from h]
  | undo => rfl
  | redo => rfl

section Moves

variable [Rules P]

/-- The move that a recorded command makes from a document, and what it does to the clip identities.
An edit makes none if its batch is refused. -/
def JournalCommand.perform (document : Document P) :
    JournalCommand P → Option (HistoryMove P × List (OperationIdentityEffect P))
  | .do_ operation => (applyBatchObserved document [operation]).toOption.map fun (after, effects) =>
      (.push after [operation], effects)
  | .doBatch operations => (applyBatchObserved document operations).toOption.map fun (after, effects) =>
      (.push after operations, effects)
  | .doBatchCoalesced operations coalesceKey =>
    (applyBatchObserved document operations).toOption.map fun (after, effects) =>
      (.coalesce after operations coalesceKey, effects)
  | .undo => some (.undo, [])
  | .redo => some (.redo, [])

/-- `Replays operations before after`: folding `Operation::apply` over the operations. -/
def Replays (operations : List (Operation P)) (before after : Document P) : Prop :=
  applyAll operations before = .ok after

theorem Replays.append {xs ys : List (Operation P)} {a b c : Document P} (hx : Replays xs a b)
    (hy : Replays ys b c) : Replays (xs ++ ys) a c :=
  applyAll_append hx hy

variable {document : Document P}

private theorem toOption_map_eq_some {operations : List (Operation P)}
    {f : Document P × List (OperationIdentityEffect P) →
      HistoryMove P × List (OperationIdentityEffect P)}
    {r : HistoryMove P × List (OperationIdentityEffect P)}
    (h : (applyBatchObserved document operations).toOption.map f = some r) :
    ∃ after effects, applyBatchObserved document operations = .ok (after, effects) ∧ f (after, effects) = r := by
  rcases happly : applyBatchObserved document operations with error | ⟨after, effects⟩
  · rw [happly] at h; cases h
  · rw [happly] at h; exact ⟨after, effects, rfl, Option.some.inj h⟩

variable {c : JournalCommand P} {effects : List (OperationIdentityEffect P)}

/-- The new document of a performed move is the replay of its operations, and it is valid. -/
theorem JournalCommand.perform_sound {m : HistoryMove P} (h : c.perform document = some (m, effects)) :
    m.Sound Replays document ∧ m.Adds Document.Valid := by
  cases c with
  | do_ operation | doBatch operations | doBatchCoalesced operations key =>
    obtain ⟨after, effects', happly, hr⟩ := toOption_map_eq_some h
    obtain ⟨rfl, -⟩ := Prod.mk.inj hr
    exact (applyBatchObserved_ok happly).2
  | undo | redo => obtain ⟨rfl, -⟩ := Prod.mk.inj (Option.some.inj h); exact ⟨trivial, trivial⟩

/-- The move that each recorded command makes. -/
theorem JournalCommand.perform_cases {m : HistoryMove P} (h : c.perform document = some (m, effects)) :
    (c = .undo ∧ m = .undo) ∨ (c = .redo ∧ m = .redo) ∨ (c ≠ .undo ∧ c ≠ .redo ∧
        ((∃ after operations, m = .push after operations) ∨
          ∃ after operations key, m = .coalesce after operations key)) := by
  cases c with
  | undo => exact Or.inl ⟨rfl, (Prod.mk.inj (Option.some.inj h)).1.symm⟩
  | redo => exact Or.inr (Or.inl ⟨rfl, (Prod.mk.inj (Option.some.inj h)).1.symm⟩)
  | doBatchCoalesced operations key =>
    obtain ⟨after, effects', -, hr⟩ := toOption_map_eq_some h
    exact Or.inr (Or.inr ⟨nofun, nofun, Or.inr ⟨after, operations, key, (Prod.mk.inj hr).1.symm⟩⟩)
  | _ =>
    obtain ⟨after, effects', -, hr⟩ := toOption_map_eq_some h
    exact Or.inr (Or.inr ⟨nofun, nofun, Or.inl ⟨after, _, (Prod.mk.inj hr).1.symm⟩⟩)

/-- Only an `Undo` makes the undo move. -/
theorem JournalCommand.perform_eq_undo (h : c.perform document = some (.undo, effects)) : c = .undo := by
  rcases perform_cases h with ⟨hc, -⟩ | ⟨-, hm⟩ | ⟨-, -, ⟨_, _, hm⟩ | ⟨_, _, _, hm⟩⟩
  · exact hc
  · cases hm
  · cases hm
  · cases hm

end Moves

namespace CoreState

/-- The document between its undo and redo stacks. -/
def undoStacks (s : CoreState P) : UndoStack.Stacks (Document P) (Operation P) String :=
  { document := s.document, undo := s.undo, redo := s.redo }

@[simp] theorem undoStacks_document (s : CoreState P) : s.undoStacks.document = s.document := rfl

@[simp] theorem undoStacks_undo (s : CoreState P) : s.undoStacks.undo = s.undo := rfl

@[simp] theorem undoStacks_redo (s : CoreState P) : s.undoStacks.redo = s.redo := rfl

/-- The state after the accepted command `c`, which made the move `m`. -/
def accept (s : CoreState P) (c : JournalCommand P) (m : HistoryMove P)
    (effects : List (OperationIdentityEffect P)) : CoreState P :=
  let next := s.undoStacks.move m
  { s with
    document := next.document
    undo := next.undo
    redo := next.redo
    opLog := s.opLog ++ m.operations
    revision := if m.Effective s.undoStacks then s.revision + 1 else s.revision
    batches := s.batches ++
      [{ order := s.batches.length
         command := c
         identityEffects := effects
         undoEntries := next.undo.length
         redoEntries := next.redo.length }]
    identityEffects := [] }

/-- The state after a refused command: what the last command did to the identities is cleared. -/
def clearIdentityEffects (s : CoreState P) : CoreState P := { s with identityEffects := [] }

@[simp] theorem clearIdentityEffects_undoStacks (s : CoreState P) :
    s.clearIdentityEffects.undoStacks = s.undoStacks := rfl

private theorem undoEntry_recordBatch (s : CoreState P) :
    s.clearIdentityEffects.undoEntry.recordBatch .undo = s.accept .undo .undo [] := by
  unfold accept UndoStack.Stacks.move
  rcases List.eq_nil_or_concat' s.undo with hnil | ⟨us, e, hconcat⟩
  · have hidle : ¬ (Move.undo : HistoryMove P).Effective s.undoStacks :=
      fun h => h hnil
    rw [Stacks.undoStep_nil (s := s.undoStacks) hnil, if_neg hidle]
    simp [undoEntry, clearIdentityEffects, recordBatch, hnil, UndoStack.Move.operations]
  · have hmoves : (Move.undo : HistoryMove P).Effective s.undoStacks := by
      simp [UndoStack.Move.Effective, hconcat]
    rw [Stacks.undoStep_concat (s := s.undoStacks) hconcat, if_pos hmoves]
    simp [undoEntry, clearIdentityEffects, recordBatch, incrementRevision, hconcat, UndoStack.Move.operations]

private theorem redoEntry_recordBatch (s : CoreState P) :
    s.clearIdentityEffects.redoEntry.recordBatch .redo = s.accept .redo .redo [] := by
  unfold accept UndoStack.Stacks.move
  rcases List.eq_nil_or_concat' s.redo with hnil | ⟨rs, r, hconcat⟩
  · have hidle : ¬ (Move.redo : HistoryMove P).Effective s.undoStacks :=
      fun h => h hnil
    rw [Stacks.redoStep_nil (s := s.undoStacks) hnil, if_neg hidle]
    simp [redoEntry, clearIdentityEffects, recordBatch, hnil, UndoStack.Move.operations]
  · have hmoves : (Move.redo : HistoryMove P).Effective s.undoStacks := by
      simp [UndoStack.Move.Effective, hconcat]
    rw [Stacks.redoStep_concat (s := s.undoStacks) hconcat, if_pos hmoves]
    simp [redoEntry, clearIdentityEffects, recordBatch, incrementRevision, hconcat, UndoStack.Move.operations]

variable {s : CoreState P}

theorem revisionConflict_of_eq {expected : TimelineRevision} (h : expected = s.revision) (token : Option CommandToken) :
    s.revisionConflict expected token = none :=
  if_neg (not_not.mpr h)

theorem revisionConflict_of_ne {expected : TimelineRevision} (h : expected ≠ s.revision) (token : Option CommandToken) :
    s.revisionConflict expected token = some (.revisionConflict expected s.revision token) :=
  if_pos h

theorem undoBlocked_eq_some {pending : PendingFloor P} : s.undoBlocked = some pending ↔
      s.pendingFloor = some pending ∧ s.undo.length ≤ pending.depth := by
  rw [undoBlocked, Option.filter_eq_some_iff, decide_eq_true_eq]

section Executor

variable [Rules P] {s : CoreState P} {operations : List (Operation P)}
  {effects : List (OperationIdentityEffect P)}

theorem edit_of_ok (undo : List (HistoryEntry P)) {after : Document P}
    (h : applyBatchObserved s.document operations = .ok (after, effects)) :
    s.edit undo operations = .ok (after, incrementRevision
        { s with
          identityEffects := effects
          undo
          redo := []
          opLog := s.opLog ++ operations
          document := after }) := by
  unfold edit
  rw [h]
  rfl

variable {error : BatchError P}

theorem edit_of_error (undo : List (HistoryEntry P)) (h : applyBatchObserved s.document operations = .error error) :
    s.edit undo operations = .error error := by
  unfold edit
  rw [h]

theorem doOperation_of_ok {operation : Operation P} {after : Document P}
    (h : applyBatchObserved s.document [operation] = .ok (after, effects)) :
    s.doOperation operation = .ok (after, incrementRevision
        { s with
          identityEffects := effects
          undo := s.undo ++
            [{ document := s.document, operations := [operation], coalesceKey := none }]
          redo := []
          opLog := s.opLog ++ [operation]
          document := after }) := by
  have hedit := edit_of_ok (s.undo ++
    [{ document := s.document, operations := [operation], coalesceKey := none }]) h
  unfold doOperation
  dsimp only
  split
  next heq => rw [hedit] at heq; cases heq
  next heq => rw [hedit] at heq; cases heq
  next heq => rw [hedit] at heq; rw [← Except.ok.inj heq]

/-- A refused operation reports the cause of its batch of one. -/
theorem doOperation_of_error {operation : Operation P} (h : applyBatchObserved s.document [operation] = .error error) :
    ∃ number cause, error = .operationFailed number cause ∧ s.doOperation operation = .error cause := by
  have hedit := edit_of_error (s.undo ++
    [{ document := s.document, operations := [operation], coalesceKey := none }]) h
  rcases error with _ | ⟨number, cause⟩
  · exact absurd h (applyBatchObserved_singleton_ne_empty _ _)
  · refine ⟨number, cause, rfl, ?_⟩
    unfold doOperation
    dsimp only
    split
    next heq => rw [hedit] at heq; cases heq; rfl
    next heq => rw [hedit] at heq; cases heq
    next heq => rw [hedit] at heq; cases heq

/-- The reason why a command is not recorded, with the event that says so. -/
inductive Refused (s : CoreState P) : Command P → Event P → Prop
  | operation {operation : Operation P} {number : ℕ} {cause : P.OpError}
      (cause_eq : applyBatchObserved s.document [operation.canonicalizeLegacyEffectNames]
        = .error (.operationFailed number cause)) :
      Refused s (.do_ operation) (.opRejected operation.canonicalizeLegacyEffectNames cause none)
  | batch {operations : List (Operation P)} {error : BatchError P} (error_eq : applyBatchObserved s.document
        (operations.map canonicalizeLegacyEffectNames) = .error error) :
      Refused s (.doBatch operations) (.batchRejected (operations.map canonicalizeLegacyEffectNames) error)
  | batchCoalesced {operations : List (Operation P)} {coalesceKey : String} {error : BatchError P}
      (error_eq : applyBatchObserved s.document (operations.map canonicalizeLegacyEffectNames) = .error error) :
      Refused s (.doBatchCoalesced operations coalesceKey)
        (.batchRejected (operations.map canonicalizeLegacyEffectNames) error)
  | gatedOperation {expected : TimelineRevision} {operation : Operation P}
      {token : Option CommandToken} {number : ℕ} {cause : P.OpError}
      (gate : expected = s.revision)
      (cause_eq : applyBatchObserved s.document [operation.canonicalizeLegacyEffectNames]
        = .error (.operationFailed number cause)) :
      Refused s (.doIfRevision expected operation token)
        (.opRejected operation.canonicalizeLegacyEffectNames cause token)
  | gatedBatch {expected : TimelineRevision} {operations : List (Operation P)}
      {error : BatchError P} (gate : expected = s.revision)
      (error_eq : applyBatchObserved s.document (operations.map canonicalizeLegacyEffectNames) = .error error) :
      Refused s (.doBatchIfRevision expected operations)
        (.batchRejected (operations.map canonicalizeLegacyEffectNames) error)
  | staleOperation {expected : TimelineRevision} {operation : Operation P}
      {token : Option CommandToken} (gate : expected ≠ s.revision) :
      Refused s (.doIfRevision expected operation token) (.revisionConflict expected s.revision token)
  | staleBatch {expected : TimelineRevision} {operations : List (Operation P)} (gate : expected ≠ s.revision) :
      Refused s (.doBatchIfRevision expected operations) (.revisionConflict expected s.revision none)
  | query (query : Query) : Refused s (.query query) (.queryResult (s.query query))

variable {command : Command P}

/-- No refusal is recorded. -/
theorem Refused.journaled {event : Event P} (h : Refused s command event) : event.journaled = none := by
  cases h <;> rfl

theorem Refused.not_isDocumentChanged {event : Event P} (h : Refused s command event) :
    event.isDocumentChanged = false := by
  cases h <;> rfl

/-- Everything that one executed command can do: record its journal form with the move that form
makes, or change nothing. -/
inductive Executed (s : CoreState P) (command : Command P) : Event P × CoreState P → Prop
  | accepted {c : JournalCommand P} {m : HistoryMove P} {effects : List (OperationIdentityEffect P)}
      (form : command.journalForm s.revision = some c)
      (move : c.perform s.document = some (m, effects)) :
      Executed s command (.documentChanged (s.accept c m effects).document (s.accept c m effects).revision c.lastOp
          (some c) command.token, s.accept c m effects)
  | refused {event : Event P} (form : ∀ c, command.journalForm s.revision = some c → c.perform s.document = none)
      (why : Refused s command event) :
      Executed s command (event, s.clearIdentityEffects)

private theorem perform_of_error {f : Document P × List (OperationIdentityEffect P) →
      HistoryMove P × List (OperationIdentityEffect P)} {document : Document P}
    (h : applyBatchObserved document operations = .error error) :
    (applyBatchObserved document operations).toOption.map f = none := by
  rw [h]; rfl

/-- What `execute_command` does with what its inner half returns. -/
private def record : Event P × CoreState P → Event P × CoreState P
  | (event, s) => match event.journaled with
    | some command => (event, s.recordBatch command)
    | none => (event, s)

private theorem executeOperation_executed (command : Command P) (operation : Operation P)
    (form : command.journalForm s.revision = some (.do_ operation.canonicalizeLegacyEffectNames))
    (why : ∀ {number : ℕ} {cause : P.OpError}, applyBatchObserved s.document [operation.canonicalizeLegacyEffectNames]
        = .error (.operationFailed number cause) →
      Refused s command (.opRejected operation.canonicalizeLegacyEffectNames cause command.token)) :
    Executed s command (record (s.clearIdentityEffects.executeOperation operation command.token)) := by
  unfold executeOperation
  dsimp only
  generalize operation.canonicalizeLegacyEffectNames = operation at form why ⊢
  rcases happly : applyBatchObserved s.document [operation] with error | ⟨after, effects⟩
  · obtain ⟨number, cause, rfl, hdo⟩ :=
      doOperation_of_error (s := s.clearIdentityEffects) happly
    rw [hdo]
    refine .refused (fun c hc => ?_) (why happly)
    rw [form, Option.some.injEq] at hc
    rw [← hc]
    exact perform_of_error happly
  · rw [doOperation_of_ok (s := s.clearIdentityEffects) happly]
    exact .accepted form (by rw [perform, happly]; rfl)

private theorem executeBatch_executed (operations : List (Operation P)) (htoken : command.token = none)
    (form : command.journalForm s.revision = some (.doBatch (operations.map canonicalizeLegacyEffectNames)))
    (why : ∀ {error : BatchError P}, applyBatchObserved s.document (operations.map canonicalizeLegacyEffectNames)
        = .error error →
      Refused s command (.batchRejected (operations.map canonicalizeLegacyEffectNames) error)) :
    Executed s command (record (s.clearIdentityEffects.executeBatch operations)) := by
  unfold executeBatch doBatch
  dsimp only
  generalize operations.map canonicalizeLegacyEffectNames = operations at form why ⊢
  rcases happly : applyBatchObserved s.document operations with error | ⟨after, effects⟩
  · rw [edit_of_error (s := s.clearIdentityEffects) _ happly]
    refine .refused (fun c hc => ?_) (why happly)
    rw [form, Option.some.injEq] at hc
    rw [← hc]
    exact perform_of_error happly
  · rw [edit_of_ok (s := s.clearIdentityEffects) _ happly]
    have hacc := Executed.accepted form (show _ = some (.push after operations, effects) by
        rw [perform, happly]; rfl)
    rw [htoken] at hacc
    exact hacc

private theorem executeBatchCoalesced_executed (operations : List (Operation P)) (coalesceKey : String) :
    Executed s (.doBatchCoalesced operations coalesceKey)
      (record (s.clearIdentityEffects.executeBatchCoalesced operations coalesceKey)) := by
  have form : (Command.doBatchCoalesced operations coalesceKey).journalForm s.revision
      = some (.doBatchCoalesced (operations.map canonicalizeLegacyEffectNames)
          coalesceKey) := rfl
  have why : ∀ {error : BatchError P}, applyBatchObserved s.document (operations.map canonicalizeLegacyEffectNames)
        = .error error →
      Refused s (.doBatchCoalesced operations coalesceKey)
        (.batchRejected (operations.map canonicalizeLegacyEffectNames) error) :=
    .batchCoalesced
  unfold executeBatchCoalesced doBatchCoalesced
  dsimp only
  generalize operations.map canonicalizeLegacyEffectNames = operations' at form why ⊢
  rcases happly : applyBatchObserved s.document operations' with error | ⟨after, effects⟩
  · rw [edit_of_error (s := s.clearIdentityEffects) _ happly]
    refine .refused (fun c hc => ?_) (why happly)
    rw [form, Option.some.injEq] at hc
    rw [← hc]
    exact perform_of_error happly
  · rw [edit_of_ok (s := s.clearIdentityEffects) _ happly]
    exact .accepted form (show _ = some (.coalesce after operations' coalesceKey, effects) by
        rw [perform, happly]; rfl)

/-- The specification of `execute_command`. -/
theorem executeCommand_executed (s : CoreState P) (command : Command P) :
    Executed s command (s.executeCommand command) := by
  change Executed s command (record (executeCommandInner s.clearIdentityEffects command))
  cases command with
  | do_ operation => exact executeOperation_executed _ operation rfl .operation
  | doBatch operations => exact executeBatch_executed operations rfl rfl .batch
  | doBatchCoalesced operations key => exact executeBatchCoalesced_executed operations key
  | doIfRevision expected operation token =>
    simp only [executeCommandInner]
    by_cases h : expected = s.revision
    · rw [revisionConflict_of_eq (s := s.clearIdentityEffects) h]
      exact executeOperation_executed (.doIfRevision expected operation token) operation (if_pos h) (.gatedOperation h)
    · rw [revisionConflict_of_ne (s := s.clearIdentityEffects) h]
      exact .refused (fun c hc => by rw [Command.journalForm, if_neg h] at hc; cases hc)
        (.staleOperation h)
  | doBatchIfRevision expected operations =>
    simp only [executeCommandInner]
    by_cases h : expected = s.revision
    · rw [revisionConflict_of_eq (s := s.clearIdentityEffects) h]
      exact executeBatch_executed operations rfl (if_pos h) (.gatedBatch h)
    · rw [revisionConflict_of_ne (s := s.clearIdentityEffects) h]
      exact .refused (fun c hc => by rw [Command.journalForm, if_neg h] at hc; cases hc)
        (.staleBatch h)
  | undo =>
    have hrecord := undoEntry_recordBatch s
    have haccepted := @Executed.accepted P _ s .undo .undo .undo [] rfl rfl
    rw [← hrecord] at haccepted
    exact haccepted
  | redo =>
    have hrecord := redoEntry_recordBatch s
    have haccepted := @Executed.accepted P _ s .redo .redo .redo [] rfl rfl
    rw [← hrecord] at haccepted
    exact haccepted
  | query query => exact .refused (fun c hc => by cases hc) (.query query)

/-- A command whose journal form can be performed is accepted. -/
theorem executeCommand_of_form {c : JournalCommand P} {m : HistoryMove P}
    (hform : command.journalForm s.revision = some c)
    (hm : c.perform s.document = some (m, effects)) :
    s.executeCommand command =
      (.documentChanged (s.accept c m effects).document (s.accept c m effects).revision c.lastOp
        (some c) command.token, s.accept c m effects) := by
  have hspec := s.executeCommand_executed command
  generalize s.executeCommand command = result at hspec ⊢
  rcases hspec with ⟨form, move⟩ | ⟨form, -⟩
  · rw [hform, Option.some.injEq] at form
    subst form
    rw [hm] at move
    obtain ⟨rfl, rfl⟩ := move
    rfl
  · rw [form c hform] at hm
    cases hm

/-- An undo moves the stacks even when there is nothing to undo: it is recorded all the same. -/
theorem executeCommand_undo_undoStacks (s : CoreState P) :
    (s.executeCommand .undo).2.undoStacks = s.undoStacks.undoStep := by
  have hspec := s.executeCommand_executed .undo
  generalize s.executeCommand .undo = result at hspec
  rcases hspec with ⟨form, move⟩ | ⟨form, -⟩
  · obtain rfl := Option.some.inj form
    obtain ⟨rfl, rfl⟩ := Prod.mk.inj (Option.some.inj move)
    rfl
  · exact absurd (form .undo rfl) nofun

/-- A redo moves the stacks even when there is nothing to redo: it is recorded all the same. -/
theorem executeCommand_redo_undoStacks (s : CoreState P) :
    (s.executeCommand .redo).2.undoStacks = s.undoStacks.redoStep := by
  have hspec := s.executeCommand_executed .redo
  generalize s.executeCommand .redo = result at hspec
  rcases hspec with ⟨form, move⟩ | ⟨form, -⟩
  · obtain rfl := Option.some.inj form
    obtain ⟨rfl, rfl⟩ := Prod.mk.inj (Option.some.inj move)
    rfl
  · exact absurd (form .redo rfl) nofun

/-- Everything that `execute_actor_command` can do: refuse by the attachment, refuse an undo at the
floor of a pending save, or execute. -/
inductive ActorExecuted (s : CoreState P) (attachment : AttachmentState) (command : Command P) :
    Event P × CoreState P → Prop
  | detached (hquery : command.isQuery = false) (hattachment : attachment ≠ .live) :
      ActorExecuted s attachment command (attachmentRefusal attachment command, s)
  | blocked {pending : PendingFloor P} (hundo : command = .undo) (hattachment : attachment = .live)
      (hpending : s.pendingFloor = some pending) (hdepth : s.undo.length ≤ pending.depth) :
      ActorExecuted s attachment command (.undoBlockedBySave pending.offset, s)
  | executed (hattachment : command.isQuery ∨ attachment = .live)
      (hdepth : command = .undo → ∀ pending ∈ s.pendingFloor, pending.depth < s.undo.length) :
      ActorExecuted s attachment command (s.executeCommand command)

theorem executeActorCommand_executed (s : CoreState P) (attachment : AttachmentState) (command : Command P) :
    ActorExecuted s attachment command (s.executeActorCommand attachment command) := by
  unfold executeActorCommand
  by_cases hdetached : ¬ command.isQuery ∧ attachment ≠ .live
  · rw [if_pos hdetached]
    exact .detached (by simpa using hdetached.1) hdetached.2
  · rw [if_neg hdetached]
    have hattachment : command.isQuery ∨ attachment = .live := by
      by_cases hquery : command.isQuery
      · exact Or.inl hquery
      · exact Or.inr (by_contra fun h => hdetached ⟨hquery, h⟩)
    by_cases hundo : command = .undo
    · subst hundo
      rcases hblocked : s.undoBlocked with _ | pending
      · refine .executed hattachment fun _ pending hpending => ?_
        by_contra hdepth
        have := undoBlocked_eq_some.mpr ⟨hpending, not_lt.mp hdepth⟩
        rw [hblocked] at this
        cases this
      · obtain ⟨hpending, hdepth⟩ := undoBlocked_eq_some.mp hblocked
        exact .blocked rfl (hattachment.resolve_left nofun) hpending hdepth
    · have hexecuted := ActorExecuted.executed (s := s) hattachment fun h => absurd h hundo
      cases command <;> first | exact hexecuted | exact absurd rfl hundo

/-- What every command preserves, every run preserves. -/
theorem executeAll_preserves (p : CoreState P → Prop)
    (hstep : ∀ s command, p s → p (executeCommand s command).2) (commands : List (Command P))
    (hs : p s) : p (s.executeAll commands) := by
  induction commands generalizing s with
  | nil => exact hs
  | cons command commands ih => exact ih (hstep s command hs)

end Executor

end CoreState

end Kinewright.Core
