import Kinewright.Core.Journal

/-!
# Replaying the journal

`CoreState::restore` and the replay loop it shares with the save floors. The executor reads and
writes only part of the state, so two states that agree there (`Twin`) stay twins under any command
that both journal alike. A state that is the twin of the replay of its own batches is `Replayed`;
such a state can be restored from its exported history.
-/

namespace Kinewright.Core

open Except

variable {P : Payload}

namespace CoreState

section Replay

variable [Rules P]

/-- Execute recorded batches in order; each must be accepted again. -/
def replay (s : CoreState P) : List (HistoryBatch P) → Except HistoryError (CoreState P)
  | [] => .ok s
  | batch :: batches => let (event, s) := s.executeCommand batch.command.toCommand
    if event.isDocumentChanged then s.replay batches else .error .corrupt

/-- `CoreState::restore`. -/
def restore (snapshot : HistorySnapshot P) : Except HistoryError (CoreState P) :=
  match validateDocument snapshot.baseline with
  | .error _ => .error .corrupt
  | .ok () => do
    let candidate ← (new snapshot.baseline 0).replay snapshot.batches
    let candidate := { candidate with floorOffset := snapshot.floorOffset }
    if candidate.history ≠ snapshot then .error .corrupt else .ok candidate

end Replay

/-! ## The frame: what the executor leaves alone -/

/-- The fields that no command touches. -/
structure SameFrame (s s' : CoreState P) : Prop where
  historyEpoch : s'.historyEpoch = s.historyEpoch
  nextFloorId : s'.nextFloorId = s.nextFloorId
  pendingFloor : s'.pendingFloor = s.pendingFloor
  floorOffset : s'.floorOffset = s.floorOffset
  baseline : s'.baseline = s.baseline

theorem SameFrame.refl (s : CoreState P) : SameFrame s s := ⟨rfl, rfl, rfl, rfl, rfl⟩

theorem SameFrame.trans {s t u : CoreState P} (h : SameFrame s t) (h' : SameFrame t u) :
    SameFrame s u where
  historyEpoch := h'.historyEpoch.trans h.historyEpoch
  nextFloorId := h'.nextFloorId.trans h.nextFloorId
  pendingFloor := h'.pendingFloor.trans h.pendingFloor
  floorOffset := h'.floorOffset.trans h.floorOffset
  baseline := h'.baseline.trans h.baseline

section Replay

variable [Rules P]

theorem executeCommand_sameFrame (s : CoreState P) (command : Command P) :
    SameFrame s (s.executeCommand command).2 := by
  have hspec := s.executeCommand_executed command
  generalize s.executeCommand command = result at hspec
  rcases hspec with ⟨-, -⟩ | ⟨-, -⟩ <;> exact ⟨rfl, rfl, rfl, rfl, rfl⟩

/-! ## One replayed batch -/

variable {s : CoreState P}

/-- A canonical command is replayed exactly when its move can be performed. -/
theorem executeCommand_of_perform {c : JournalCommand P} {m : HistoryMove P}
    {effects : List (OperationIdentityEffect P)} (hc : c.Canonical)
    (hm : c.perform s.document = some (m, effects)) :
    s.executeCommand c.toCommand =
      (.documentChanged (s.accept c m effects).document (s.accept c m effects).revision c.lastOp
        (some c) c.toCommand.token, s.accept c m effects) :=
  executeCommand_of_form (hc.journalForm _) hm

/-- An accepted event of the executor is a recorded one. -/
theorem executeCommand_isDocumentChanged {command : Command P} (h : (s.executeCommand command).1.isDocumentChanged) :
    ∃ c m effects, command.journalForm s.revision = some c ∧ c.perform s.document = some (m, effects) ∧
      (s.executeCommand command).2 = s.accept c m effects := by
  have hspec := s.executeCommand_executed command
  generalize s.executeCommand command = result at hspec h ⊢
  rcases hspec with ⟨form, move⟩ | ⟨-, why⟩
  · exact ⟨_, _, _, form, move, rfl⟩
  · cases why <;> cases h

variable {batches : List (HistoryBatch P)} {t : CoreState P}

theorem replay_cons {batch : HistoryBatch P} (h : s.replay (batch :: batches) = .ok t) :
    (s.executeCommand batch.command.toCommand).1.isDocumentChanged ∧
      (s.executeCommand batch.command.toCommand).2.replay batches = .ok t := by
  rw [replay] at h
  by_cases hchanged : (s.executeCommand batch.command.toCommand).1.isDocumentChanged
  · exact ⟨hchanged, by simpa only [hchanged, if_true] using h⟩
  · simp only [hchanged] at h
    cases h

theorem replay_append {xs : List (HistoryBatch P)} (hx : s.replay xs = .ok t)
    (ys : List (HistoryBatch P)) : s.replay (xs ++ ys) = t.replay ys := by
  induction xs generalizing s with
  | nil => rw [replay, ok.injEq] at hx; rw [List.nil_append, hx]
  | cons x xs ih =>
    obtain ⟨hchanged, hrest⟩ := replay_cons hx
    rw [List.cons_append, replay]
    simp only [hchanged, if_true]
    exact ih hrest

/-- What every accepted command preserves, a replay preserves. -/
theorem replay_preserves (p : CoreState P → Prop)
    (hstep : ∀ s c m effects, p s → c.Canonical → c.perform s.document = some (m, effects) →
      p (s.accept c m effects)) (hs : p s) (h : s.replay batches = .ok t) : p t := by
  induction batches generalizing s with
  | nil => rw [replay, ok.injEq] at h; rw [← h]; exact hs
  | cons batch batches ih =>
    obtain ⟨hchanged, hrest⟩ := replay_cons h
    obtain ⟨c, m, effects, form, move, hnext⟩ := executeCommand_isDocumentChanged hchanged
    rw [hnext] at hrest
    exact ih (hstep s c m effects hs (Command.journalForm_canonical form) move) hrest

theorem replay_sameFrame (h : s.replay batches = .ok t) : SameFrame s t :=
  replay_preserves (SameFrame s) (fun _ _ _ _ hs _ _ => hs.trans ⟨rfl, rfl, rfl, rfl, rfl⟩) (SameFrame.refl s) h

end Replay

/-! ## Twins -/

/-- Two states that the executor cannot tell apart, but for their revisions. -/
structure Twin (s t : CoreState P) : Prop where
  document : t.document = s.document
  undo : t.undo = s.undo
  redo : t.redo = s.redo
  batches : t.batches = s.batches
  opLog : t.opLog = s.opLog

namespace Twin

variable {s t : CoreState P}

section

variable (h : Twin s t)

include h

theorem undoStacks : t.undoStacks = s.undoStacks := by
  rw [CoreState.undoStacks, CoreState.undoStacks, h.document, h.undo, h.redo]

theorem symm : Twin t s := ⟨h.document.symm, h.undo.symm, h.redo.symm, h.batches.symm, h.opLog.symm⟩

theorem trans {u : CoreState P} (h' : Twin t u) : Twin s u :=
  ⟨h'.document.trans h.document, h'.undo.trans h.undo, h'.redo.trans h.redo,
    h'.batches.trans h.batches, h'.opLog.trans h.opLog⟩

theorem clearIdentityEffects : Twin s.clearIdentityEffects t.clearIdentityEffects :=
  ⟨h.document, h.undo, h.redo, h.batches, h.opLog⟩

theorem accept (c : JournalCommand P) (m : HistoryMove P) (effects : List (OperationIdentityEffect P)) :
    Twin (s.accept c m effects) (t.accept c m effects) := by
  have hstacks := h.undoStacks
  refine ⟨?_, ?_, ?_, ?_, ?_⟩ <;> simp only [CoreState.accept, hstacks, h.batches, h.opLog]

/-- Twins with one baseline and one floor export one history. -/
theorem history (hbaseline : t.baseline = s.baseline)
    (hoffset : t.floorOffset = s.floorOffset) : t.history = s.history := by
  rw [CoreState.history, CoreState.history, h.document, h.undo, h.redo, h.batches, hbaseline, hoffset]

end

end Twin

section Replay

variable [Rules P] {s t : CoreState P}

/-- Twins answer alike to two commands that they journal alike, and stay twins. -/
theorem Twin.executeCommand (h : Twin s t) {command command' : Command P}
    (hform : command'.journalForm t.revision = command.journalForm s.revision) :
    Twin (s.executeCommand command).2 (t.executeCommand command').2 ∧ (t.executeCommand command').1.isDocumentChanged
        = (s.executeCommand command).1.isDocumentChanged := by
  have hs := s.executeCommand_executed command
  have ht := t.executeCommand_executed command'
  generalize s.executeCommand command = rs at hs ⊢
  generalize t.executeCommand command' = rt at ht ⊢
  rcases hs with ⟨form, move⟩ | ⟨refused, why⟩ <;> rcases ht with ⟨form', move'⟩ | ⟨refused', why'⟩
  · rw [hform, form, Option.some.injEq] at form'
    subst form'
    rw [h.document, move] at move'
    obtain ⟨rfl, rfl⟩ := move'
    exact ⟨h.accept _ _ _, rfl⟩
  · have hnone := refused' _ (hform.trans form)
    rw [h.document, move] at hnone
    cases hnone
  · have hnone := refused _ (hform.symm.trans form')
    rw [← h.document, move'] at hnone
    cases hnone
  · exact ⟨h.clearIdentityEffects, by rw [why.not_isDocumentChanged, why'.not_isDocumentChanged]⟩

/-- Twins replay the same batches to twins. -/
theorem Twin.replay {batches : List (HistoryBatch P)} {s' : CoreState P} (h : Twin s t)
    (hreplay : s.replay batches = .ok s') : ∃ t', t.replay batches = .ok t' ∧ Twin s' t' := by
  induction batches generalizing s t with
  | nil =>
    rw [CoreState.replay, ok.injEq] at hreplay
    exact ⟨t, rfl, hreplay ▸ h⟩
  | cons batch batches ih =>
    obtain ⟨hchanged, hrest⟩ := replay_cons hreplay
    obtain ⟨htwin, hchanged'⟩ := h.executeCommand (batch.command.journalForm_toCommand t.revision s.revision)
    obtain ⟨t', hreplay', ht'⟩ := ih htwin hrest
    refine ⟨t', ?_, ht'⟩
    rw [CoreState.replay]
    simp only [hchanged', hchanged, if_true]
    exact hreplay'

end Replay

/-! ## States that are the replay of their batches -/

section Replay

variable [Rules P]

/-- Replaying `n` batches records `n` batches. -/
theorem replay_length {batches : List (HistoryBatch P)} {s t : CoreState P}
    (h : s.replay batches = .ok t) : t.batches.length = s.batches.length + batches.length := by
  induction batches generalizing s with
  | nil =>
    rw [replay, ok.injEq] at h
    rw [h]
    rfl
  | cons batch batches ih =>
    obtain ⟨hchanged, hrest⟩ := replay_cons h
    obtain ⟨c, m, effects, form, move, hnext⟩ := executeCommand_isDocumentChanged hchanged
    rw [hnext] at hrest
    have hlen : (s.accept c m effects).batches.length = s.batches.length + 1 := List.length_append
    rw [ih hrest, List.length_cons]
    omega

/-- The state is what its batches replay to from its baseline, and all its documents are valid. -/
structure Replayed (s : CoreState P) : Prop where
  replays : ∃ t, (new s.baseline 0).replay s.batches = .ok t ∧ Twin s t
  baseline_valid : s.baseline.Valid
  valid : s.undoStacks.Forall Document.Valid

theorem replayed_new {document : Document P} (hvalid : document.Valid)
    (revision : TimelineRevision) : (new document revision).Replayed where
  replays := ⟨_, rfl, rfl, rfl, rfl, rfl, rfl⟩
  baseline_valid := hvalid
  valid := ⟨hvalid, nofun, nofun⟩

namespace Replayed

variable {s : CoreState P}

/-- Only what the executor reads matters. -/
theorem of_twin {s' : CoreState P} (h : s.Replayed) (htwin : Twin s s')
    (hbaseline : s'.baseline = s.baseline) : s'.Replayed where
  replays := by
    obtain ⟨t, hreplay, ht⟩ := h.replays
    exact ⟨t, by rw [hbaseline, htwin.batches]; exact hreplay, htwin.symm.trans ht⟩
  baseline_valid := hbaseline ▸ h.baseline_valid
  valid := htwin.undoStacks ▸ h.valid

theorem accept (h : s.Replayed) {c : JournalCommand P} {m : HistoryMove P}
    {effects : List (OperationIdentityEffect P)} (hc : c.Canonical)
    (hm : c.perform s.document = some (m, effects)) : (s.accept c m effects).Replayed where
  replays := by
    obtain ⟨t, hreplay, htwin⟩ := h.replays
    have hm' : c.perform t.document = some (m, effects) := htwin.document ▸ hm
    refine ⟨t.accept c m effects, ?_, htwin.accept c m effects⟩
    simp only [CoreState.accept]
    rw [replay_append hreplay, replay]
    simp only [executeCommand_of_perform hc hm']
    rfl
  baseline_valid := h.baseline_valid
  valid := h.valid.move (JournalCommand.perform_sound hm).2

theorem executeCommand (h : s.Replayed) (command : Command P) : (s.executeCommand command).2.Replayed := by
  have hspec := s.executeCommand_executed command
  generalize s.executeCommand command = result at hspec
  rcases hspec with ⟨form, move⟩ | ⟨-, -⟩
  · exact h.accept (Command.journalForm_canonical form) move
  · exact h.of_twin ⟨rfl, rfl, rfl, rfl, rfl⟩ rfl

/-- What a valid document's replay reaches is a replay of its own batches. -/
theorem of_replay {document : Document P} (hvalid : document.Valid) {batches : List (HistoryBatch P)} {t : CoreState P}
    (h : (new document 0).replay batches = .ok t) : t.Replayed :=
  replay_preserves Replayed (fun _ _ _ _ hs hc hm => hs.accept hc hm) (replayed_new hvalid 0) h

/-- A replayed state is restored from its own history, as a twin. -/
theorem restore_history (h : s.Replayed) : ∃ t, restore s.history = .ok t ∧ t.history = s.history ∧ Twin s t := by
  obtain ⟨t, hreplay, htwin⟩ := h.replays
  have hbaseline : t.baseline = s.baseline := (replay_sameFrame hreplay).baseline
  let t' : CoreState P := { t with floorOffset := s.floorOffset }
  have htwin' : Twin s t' := ⟨htwin.document, htwin.undo, htwin.redo, htwin.batches, htwin.opLog⟩
  have hhistory : t'.history = s.history := htwin'.history hbaseline rfl
  refine ⟨t', ?_, hhistory, htwin'⟩
  have hvalid : validateDocument s.history.baseline = .ok () := h.baseline_valid
  unfold restore
  rw [hvalid]
  exact bind_eq_ok.mpr ⟨t, hreplay, guard_eq_ok.mpr ⟨not_not.mpr hhistory, rfl⟩⟩

end Replayed

/-- Every restored state is a replay of its batches, exports the history it came from, and holds no
save. -/
theorem restore_ok {snapshot : HistorySnapshot P} {t : CoreState P} (h : restore snapshot = .ok t) :
    t.Replayed ∧ t.history = snapshot ∧ t.pendingFloor = none := by
  unfold restore at h
  rcases hvalid : validateDocument snapshot.baseline with error | ⟨⟩
  · rw [hvalid] at h; cases h
  · rw [hvalid] at h
    obtain ⟨candidate, hreplay, h⟩ := bind_eq_ok.mp h
    obtain ⟨hhistory, h⟩ := guard_eq_ok.mp h
    have hcandidate := Replayed.of_replay hvalid hreplay
    have hnone : candidate.pendingFloor = none := (replay_sameFrame hreplay).pendingFloor
    rw [not_not] at hhistory
    rw [← ok.inj h]
    exact ⟨hcandidate.of_twin ⟨rfl, rfl, rfl, rfl, rfl⟩ rfl, hhistory, hnone⟩

end Replay

end CoreState

end Kinewright.Core
