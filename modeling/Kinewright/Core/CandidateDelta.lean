import Kinewright.Core.Journal

/-!
# Taking an executed command back

`CandidateDelta` of `manual_history.rs`. Manual admission executes a command on the live state and
keeps only the pieces that this command can change. `Opened` relates a state to the delta taken from
it and the state that the command then runs on: rolling back gives the state again, whatever the
command did, and the arrays of entries agree before the positions that `cache_prefixes` names.
-/

namespace Kinewright.Core

open List UndoStack Stacks

variable {P : Payload}

/-- `EntryHead`: an entry with only the number of its operations. -/
structure EntryHead (P : Payload) where
  document : Document P
  coalesceKey : Option String
  operations : ℕ
deriving DecidableEq

/-- `impl From<&HistoryEntry> for EntryHead`. -/
def EntryHead.of (e : HistoryEntry P) : EntryHead P :=
  { document := e.document, coalesceKey := e.coalesceKey, operations := e.operations.length }

inductive StackDelta (P : Payload)
  | edit (redo : List (HistoryEntry P))
  | undo (exposedKey : Option String)
  | redo
deriving DecidableEq

structure CandidateDelta (P : Payload) where
  document : Document P
  revision : TimelineRevision
  undoLen : ℕ
  redoLen : ℕ
  undoTop : Option (EntryHead P)
  redoTop : Option (EntryHead P)
  opLogLen : ℕ
  batchesLen : ℕ
  identityEffects : List (OperationIdentityEffect P)
  stackDelta : StackDelta P
deriving DecidableEq

namespace CandidateDelta

/-- What `CandidateDelta::begin` keeps of the stacks for the command. -/
def stackDeltaOf (s : CoreState P) : Command P → StackDelta P
  | .undo => .undo <| (checkedSub s.undo.length 2).bind fun i => (s.undo[i]?).bind fun e => e.coalesceKey
  | .redo => .redo
  | _ => .edit s.redo

/-- The delta of `CandidateDelta::begin`. -/
def begin (s : CoreState P) (command : Command P) : CandidateDelta P :=
  { document := s.document
    revision := s.revision
    undoLen := s.undo.length
    redoLen := s.redo.length
    undoTop := s.undo.getLast?.map EntryHead.of
    redoTop := s.redo.getLast?.map EntryHead.of
    opLogLen := s.opLog.length
    batchesLen := s.batches.length
    identityEffects := s.identityEffects
    stackDelta := stackDeltaOf s command }

/-- The state that `CandidateDelta::begin` leaves: it moves the redo stack out for an edit, and the
identity effects always. -/
def opened (s : CoreState P) : Command P → CoreState P
  | .undo | .redo => { s with identityEffects := [] }
  | _ => { s with identityEffects := [], redo := [] }

/-- `cache_prefixes`: how many undo and redo entries the command left alone. -/
def cachePrefixes (delta : CandidateDelta P) (s : CoreState P) : ℕ × ℕ :=
  match delta.stackDelta with
  | .edit _ => (if s.undo.length = delta.undoLen then delta.undoLen - 1 else delta.undoLen, 0)
  | .undo _ =>
    (if s.undo.length < delta.undoLen then delta.undoLen - 2 else delta.undoLen, delta.redoLen)
  | .redo => (delta.undoLen, s.redo.length)

/-- An entry whose operations are cut back to those its head counts. -/
def truncateEntry (head : Option (EntryHead P)) (e : HistoryEntry P) : HistoryEntry P :=
  match head with
  | some head => { e with operations := e.operations.take head.operations }
  | none => e

/-- The stack after the last entry moved back onto it under its old head; the source expects both
to be there. -/
def putBack (stack : List (HistoryEntry P)) (entry : Option (HistoryEntry P))
    (head : Option (EntryHead P)) : List (HistoryEntry P) :=
  match entry, head with
  | some entry, some head =>
    stack ++ [{ document := head.document, operations := entry.operations,
                coalesceKey := head.coalesceKey }]
  | _, _ => stack

/-- The undo and redo stacks that `rollback` restores. -/
def rollbackStacks (delta : CandidateDelta P) (undo redo : List (HistoryEntry P)) :
    List (HistoryEntry P) × List (HistoryEntry P) :=
  match delta.stackDelta with
  | .edit oldRedo =>
    ((undo.take delta.undoLen).modifyLast (truncateEntry delta.undoTop), oldRedo)
  | .undo exposedKey =>
    if undo.length < delta.undoLen then
      (putBack (undo.modifyLast fun e => { e with coalesceKey := exposedKey }) redo.getLast?
        delta.undoTop, redo.dropLast)
    else (undo, redo)
  | .redo =>
    if redo.length < delta.redoLen then
      (undo.dropLast, putBack redo undo.getLast? delta.redoTop)
    else (undo, redo)

/-- `CandidateDelta::rollback`. -/
def rollback (delta : CandidateDelta P) (s : CoreState P) : CoreState P :=
  let (undo, redo) := delta.rollbackStacks s.undo s.redo
  { s with
    undo
    redo
    document := delta.document
    revision := delta.revision
    opLog := s.opLog.take delta.opLogLen
    batches := s.batches.take delta.batchesLen
    identityEffects := delta.identityEffects }

/-! ## What an edit does to the undo stack -/

/-- The undo stack of an edit: unchanged, one entry longer, or with operations merged into its newest
entry. -/
inductive EditedUndo (old : List (HistoryEntry P)) : List (HistoryEntry P) → Prop
  | same : EditedUndo old old
  | pushed (e : HistoryEntry P) : EditedUndo old (old ++ [e])
  | merged {us : List (HistoryEntry P)} {top : HistoryEntry P} (operations : List (Operation P))
      (htop : old = us ++ [top]) :
      EditedUndo old (us ++ [{ top with operations := top.operations ++ operations }])

theorem editedUndo_coalesceOnto (old : List (HistoryEntry P)) (before : Document P)
    (operations : List (Operation P)) (key : String) :
    EditedUndo old (UndoStack.coalesceOnto old before operations key) := by
  rcases eq_nil_or_concat' old with rfl | ⟨us, top, rfl⟩
  · exact .pushed _
  · by_cases hkey : top.coalesceKey = some key
    · rw [coalesceOnto_same hkey]
      exact .merged operations rfl
    · rw [coalesceOnto_other hkey]
      exact .pushed _

theorem modifyLast_truncate_self (us : List (HistoryEntry P)) :
    us.modifyLast (truncateEntry (us.getLast?.map EntryHead.of)) = us := by
  rcases eq_nil_or_concat' us with rfl | ⟨init, last, rfl⟩
  · rfl
  · rw [modifyLast_concat]
    simp [truncateEntry, EntryHead.of]

/-- Cutting an edited undo stack back gives the old one. -/
theorem EditedUndo.truncate {old new : List (HistoryEntry P)} (h : EditedUndo old new) :
    (new.take old.length).modifyLast (truncateEntry (old.getLast?.map EntryHead.of)) = old := by
  rcases h with _ | ⟨e⟩ | ⟨operations, rfl⟩
  · rw [take_length, modifyLast_truncate_self]
  · rw [take_left, modifyLast_truncate_self]
  · rename_i us top
    have hlen : (us ++ [{ top with operations := top.operations ++ operations }]).length
        = (us ++ [top]).length := by simp
    rw [← hlen, take_length, modifyLast_concat]
    simp [truncateEntry, EntryHead.of]

/-- An edit leaves the entries before its `cache_prefixes` position alone. -/
theorem EditedUndo.take {old new : List (HistoryEntry P)} (h : EditedUndo old new)
    {pre : ℕ} (hpre : pre = if new.length = old.length then old.length - 1 else old.length) :
    pre ≤ old.length ∧ new.take pre = old.take pre := by
  subst hpre
  rcases h with _ | ⟨e⟩ | ⟨operations, rfl⟩
  · rw [if_pos rfl]
    exact ⟨Nat.sub_le _ _, rfl⟩
  · have hlonger : (old ++ [e]).length ≠ old.length := by simp
    rw [if_neg hlonger, take_left, take_length]
    exact ⟨le_rfl, rfl⟩
  · rename_i us top
    have hlen : (us ++ [{ top with operations := top.operations ++ operations }]).length
        = (us ++ [top]).length := by simp
    have hpre : (us ++ [top]).length - 1 = us.length := by simp
    rw [if_pos hlen, hpre, take_left, take_left]
    exact ⟨by simp, rfl⟩

/-! ## What an undo does to the entry that it exposes -/

/-- The key that the delta of an `Undo` saves is the one that the undo clears. -/
theorem restore_exposedKey (us : List (HistoryEntry P)) (e : HistoryEntry P) :
    (us.modifyLast UndoStack.closeGesture).modifyLast (fun x => { x with
          coalesceKey := (checkedSub (us ++ [e]).length 2).bind fun i =>
            ((us ++ [e])[i]?).bind fun x => x.coalesceKey }) = us := by
  rcases eq_nil_or_concat' us with rfl | ⟨init, last, rfl⟩
  · rfl
  · have hsub : checkedSub (init ++ [last] ++ [e]).length 2 = some init.length := by
      simp [checkedSub]
    have hget : (init ++ [last] ++ [e])[init.length]? = some last := by
      simp
    rw [modifyLast_concat, modifyLast_concat, hsub, Option.bind_some, hget]
    rfl

theorem take_modifyLast (us : List (HistoryEntry P)) (f : HistoryEntry P → HistoryEntry P) :
    (us.modifyLast f).take (us.length - 1) = us.take (us.length - 1) := by
  rcases eq_nil_or_concat' us with rfl | ⟨init, last, rfl⟩
  · rfl
  · have hlen : (init ++ [last]).length - 1 = init.length := by simp
    rw [modifyLast_concat, hlen, take_left, take_left]

theorem cachePrefixes_undo (s after : CoreState P) : (begin s .undo).cachePrefixes after =
      (if after.undo.length < s.undo.length then s.undo.length - 2 else s.undo.length, s.redo.length) := rfl

theorem cachePrefixes_redo (s after : CoreState P) :
    (begin s .redo).cachePrefixes after = (s.undo.length, after.redo.length) := rfl

/-! ## Every accepted command -/

variable [Rules P]

/-- The three kinds of accepted commands, with what `begin` keeps for each. -/
inductive Kind (s : CoreState P) (command : Command P) (m : HistoryMove P) : Prop
  | edit (hdelta : stackDeltaOf s command = .edit s.redo)
      (hopened : opened s command = { s with identityEffects := [], redo := [] })
      (hundo : EditedUndo s.undo ((opened s command).undoStacks.move m).undo)
      (hredo : ((opened s command).undoStacks.move m).redo = [])
  | undo (hcommand : command = .undo) (hm : m = .undo)
  | redo (hcommand : command = .redo) (hm : m = .redo)

variable {s : CoreState P} {command : Command P} {c : JournalCommand P} {m : HistoryMove P}
  {effects : List (OperationIdentityEffect P)}

section

variable (hform : command.journalForm s.revision = some c) (hm : c.perform s.document = some (m, effects))

include hform hm

theorem kind : Kind s command m := by
  rcases JournalCommand.perform_cases hm with ⟨rfl, rfl⟩ | ⟨rfl, rfl⟩ | ⟨hundo, hredo, hmove⟩
  · exact .undo (Command.journalForm_eq_undo hform) rfl
  · exact .redo (Command.journalForm_eq_redo hform) rfl
  · have hdelta : stackDeltaOf s command = .edit s.redo ∧
        opened s command = { s with identityEffects := [], redo := [] } := by
      cases command with
      | undo => exact absurd (Option.some.inj hform).symm hundo
      | redo => exact absurd (Option.some.inj hform).symm hredo
      | _ => exact ⟨rfl, rfl⟩
    refine .edit hdelta.1 hdelta.2 ?_ ?_ <;> rw [hdelta.2]
    · rcases hmove with ⟨after, operations, rfl⟩ | ⟨after, operations, key, rfl⟩
      · exact .pushed _
      · exact editedUndo_coalesceOnto s.undo s.document operations key
    · rcases hmove with ⟨after, operations, rfl⟩ | ⟨after, operations, key, rfl⟩ <;> rfl

/-- The stacks of an accepted command are rolled back. -/
theorem rollbackStacks_accept : (begin s command).rollbackStacks ((opened s command).undoStacks.move m).undo
      ((opened s command).undoStacks.move m).redo = (s.undo, s.redo) := by
  rcases kind hform hm with ⟨hdelta, -, hundo, -⟩ | ⟨rfl, rfl⟩ | ⟨rfl, rfl⟩
  · have hbegin : (begin s command).stackDelta = .edit s.redo := hdelta
    simp only [rollbackStacks, hbegin]
    exact Prod.ext hundo.truncate rfl
  · have hstacks : (opened s .undo).undoStacks = s.undoStacks := rfl
    simp only [hstacks, UndoStack.Stacks.move, rollbackStacks, begin, stackDeltaOf]
    rcases eq_nil_or_concat' s.undo with hnil | ⟨us, e, hconcat⟩
    · rw [undoStep_nil (s := s.undoStacks) hnil]
      exact if_neg (lt_irrefl _)
    · rw [undoStep_concat (s := s.undoStacks) hconcat]
      rw [hconcat]
      have hshorter : (us.modifyLast UndoStack.closeGesture).length < (us ++ [e]).length := by
        rw [length_modifyLast, length_append, length_singleton]
        omega
      rw [if_pos hshorter, restore_exposedKey, getLast?_concat, getLast?_concat, dropLast_concat]
      rfl
  · have hstacks : (opened s .redo).undoStacks = s.undoStacks := rfl
    simp only [hstacks, UndoStack.Stacks.move, rollbackStacks, begin, stackDeltaOf]
    rcases eq_nil_or_concat' s.redo with hnil | ⟨rs, r, hconcat⟩
    · rw [redoStep_nil (s := s.undoStacks) hnil]
      exact if_neg (lt_irrefl _)
    · rw [redoStep_concat (s := s.undoStacks) hconcat]
      rw [hconcat]
      have hshorter : rs.length < (rs ++ [r]).length := by
        rw [length_append, length_singleton]
        omega
      rw [if_pos hshorter, getLast?_concat, getLast?_concat, dropLast_concat]
      rfl

/-- Rolling an accepted command back restores the whole state. -/
theorem rollback_accept : (begin s command).rollback ((opened s command).accept c m effects) = s := by
  have hstacks := rollbackStacks_accept hform hm
  have hopened : ∃ redo, opened s command = { s with identityEffects := [], redo } := by
    cases command <;> exact ⟨_, rfl⟩
  obtain ⟨redo, hopened⟩ := hopened
  unfold rollback CoreState.accept
  rw [hstacks, hopened]
  simp [begin]

end

omit [Rules P] in
/-- Rolling back a command that changed nothing restores the whole state too. -/
theorem rollback_opened (s : CoreState P) (command : Command P) : (begin s command).rollback (opened s command) = s ∧
      (begin s command).rollback (opened s command).clearIdentityEffects = s := by
  cases command <;>
    simp [rollback, rollbackStacks, begin, stackDeltaOf, opened, CoreState.clearIdentityEffects,
      modifyLast_truncate_self]

/-- An accepted command does not see what `begin` moved out. -/
theorem accept_opened (hform : command.journalForm s.revision = some c)
    (hm : c.perform s.document = some (m, effects)) :
    (opened s command).accept c m effects = s.accept c m effects := by
  rcases JournalCommand.perform_cases hm with ⟨rfl, rfl⟩ | ⟨rfl, rfl⟩ | ⟨hundo, hredo, hmove⟩
  · rw [Command.journalForm_eq_undo hform]
    rfl
  · rw [Command.journalForm_eq_redo hform]
    rfl
  · cases command with
    | undo => exact absurd (Option.some.inj hform).symm hundo
    | redo => exact absurd (Option.some.inj hform).symm hredo
    | _ => rcases hmove with ⟨after, operations, rfl⟩ | ⟨after, operations, key, rfl⟩ <;> rfl

/-- The entries that `cache_prefixes` keeps are the ones that the command left alone. -/
theorem cachePrefixes_accept (hform : command.journalForm s.revision = some c)
    (hm : c.perform s.document = some (m, effects)) :
    let after := (opened s command).accept c m effects
    let pre := (begin s command).cachePrefixes after
    (pre.1 ≤ s.undo.length ∧ after.undo.take pre.1 = s.undo.take pre.1) ∧
      (pre.2 ≤ s.redo.length ∧ after.redo.take pre.2 = s.redo.take pre.2) := by
  intro after pre
  have hundo' : after.undo = ((opened s command).undoStacks.move m).undo := rfl
  have hredo' : after.redo = ((opened s command).undoStacks.move m).redo := rfl
  have hpre : pre = (begin s command).cachePrefixes after := rfl
  rcases kind hform hm with ⟨hdelta, -, hundo, -⟩ | ⟨rfl, rfl⟩ | ⟨rfl, rfl⟩
  · have hbegin : (begin s command).stackDelta = .edit s.redo := hdelta
    have hcase : (begin s command).cachePrefixes after
        = (if after.undo.length = s.undo.length then s.undo.length - 1 else s.undo.length, 0) := by
      rw [cachePrefixes, hbegin]
      rfl
    rw [hpre, hcase]
    exact ⟨hundo.take rfl, Nat.zero_le _, rfl⟩
  · have hstacks : (opened s .undo).undoStacks = s.undoStacks := rfl
    rw [hstacks, UndoStack.Stacks.move] at hundo' hredo'
    rw [cachePrefixes_undo] at hpre
    rcases eq_nil_or_concat' s.undo with hnil | ⟨us, e, hconcat⟩
    · rw [undoStep_nil (s := s.undoStacks) hnil] at hundo' hredo'
      have hsame : ¬ after.undo.length < s.undo.length := by
        rw [hundo']
        exact lt_irrefl _
      rw [if_neg hsame] at hpre
      rw [hpre, hundo', hredo']
      exact ⟨⟨le_rfl, rfl⟩, le_rfl, rfl⟩
    · rw [undoStep_concat (s := s.undoStacks) hconcat] at hundo' hredo'
      have hshorter : after.undo.length < s.undo.length := by
        rw [hundo', hconcat, length_modifyLast, length_append, length_singleton]
        omega
      rw [if_pos hshorter] at hpre
      have hlen : s.undo.length - 2 = us.length - 1 := by
        rw [hconcat, length_append, length_singleton]
        omega
      rw [hpre, hundo', hredo']
      refine ⟨⟨Nat.sub_le _ _, ?_⟩, le_rfl, ?_⟩
      · rw [hlen, take_modifyLast, hconcat, take_append_of_le_length (Nat.sub_le _ _)]
      · exact (take_left).trans (take_length).symm
  · have hstacks : (opened s .redo).undoStacks = s.undoStacks := rfl
    rw [hstacks, UndoStack.Stacks.move] at hundo' hredo'
    rw [cachePrefixes_redo] at hpre
    rcases eq_nil_or_concat' s.redo with hnil | ⟨rs, r, hconcat⟩
    · rw [redoStep_nil (s := s.undoStacks) hnil] at hundo' hredo'
      rw [hpre, hundo', hredo']
      exact ⟨⟨le_rfl, rfl⟩, le_rfl, rfl⟩
    · rw [redoStep_concat (s := s.undoStacks) hconcat] at hundo' hredo'
      rw [hpre, hundo', hredo', hconcat]
      refine ⟨⟨le_rfl, ?_⟩, ?_, ?_⟩
      · exact (take_left).trans (take_length).symm
      · dsimp only
        rw [length_append]
        omega
      · rw [take_left, take_length]

end CandidateDelta

end Kinewright.Core
