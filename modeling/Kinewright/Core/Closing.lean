import Kinewright.Core.Reachable
import Kinewright.Core.ManualQueue

/-!
# Closing the last gesture

`HistoryTransition::recovery_close` replays a history in a private actor and closes its open gesture by an undo and
a redo. A history with both an open gesture and a redo stack is refused as corrupt; no run of an actor exports one,
because an edit drops the redo stack and an undo and a redo close the gesture on top.
-/

namespace Kinewright.Core

open List UndoStack CoreState

variable {P : Payload} [Rules P]

/-! ## Reachable actors -/

namespace ActorState

variable [Wire P] {a : ActorState P}

omit [Rules P] [Wire P] in
/-- A message that is answered with a result keeps a property of the state, if its handler does. -/
theorem answer_state {α : Type} {p : CoreState P → Prop} {reply : Except HistoryError α → Reply P}
    {result : Except HistoryError (α × ActorState P)} (ha : p a.state)
    (h : ∀ value a', result = .ok (value, a') → p a'.state) : p (a.answer reply result).actor.state := by
  rcases result with error | ⟨value, a'⟩
  · exact ha
  · exact h value a' rfl

/-- A turn takes the state to a reachable one. -/
theorem turn_reachable (ha : a.ManualCurrent) (h : Reachable a.state) (message : CoreMessage P) :
    Reachable (a.turn message).actor.state := by
  cases message with
  | bindManual requested recovery =>
    refine answer_state h fun generation a' hbind => ?_
    obtain ⟨-, -, -, -, ingress, -, rfl⟩ := bindManual_eq_ok hbind
    exact h
  | manualAck requested generation presented =>
    rw [turn]
    rw [manualAck]
    cases a.permitted generation with
    | none => exact h
    | some m =>
      dsimp only
      split <;> exact h
  | manualCommand generation encode command =>
    rw [turn, manualCommand]
    cases hpermitted : a.permitted generation with
    | none => exact h
    | some m =>
      obtain ⟨hreflects, hfloor⟩ := ha m (permitted_eq_some.mp hpermitted).1
      have hspec := ManualIngress.execute_executed (fun _ => hreflects) encode a.attachment command
      dsimp only
      generalize m.execute encode a.state a.attachment command = result at hspec ⊢
      rcases hspec with ⟨-⟩ | ⟨-, -, -⟩ | ⟨hlive, -, -, form, hmove, -, -, -⟩
      · exact h.command a.attachment command
      · exact h
      · -- an admitted command is one that the actor would have executed itself
        have hexecuted := h.command .live command
        have hactor := a.state.executeActorCommand_executed .live command
        generalize a.state.executeActorCommand .live command = executed at hactor hexecuted
        rcases hactor with ⟨-, hattachment⟩ | ⟨-, -, hpending, -⟩ | ⟨-, -⟩
        · exact absurd rfl hattachment
        · rw [hfloor] at hpending
          cases hpending
        · rwa [executeCommand_of_form form hmove] at hexecuted
  | bindOwner requested =>
    refine answer_state h fun _ a' howner => ?_
    rw [bindOwner] at howner
    split at howner
    · obtain ⟨-, rfl⟩ := Prod.mk.inj (Except.ok.inj howner)
      exact h
    · cases howner
  | captureCut requested freeze =>
    refine answer_state h fun cut a' hcapture => ?_
    obtain ⟨-, -, rfl⟩ := captureCut_eq_ok hcapture
    cases freeze <;> exact h
  | finishAttachment requested cut sealing =>
    refine answer_state h fun _ a' hfinish => ?_
    obtain ⟨-, -, -, rfl⟩ := finishAttachment_eq_ok hfinish
    exact h
  | tagFloor requested id tag ready =>
    refine answer_state h fun _ a' htag => ?_
    obtain ⟨⟨⟩, -, htag⟩ := bind_eq_ok.mp htag
    obtain ⟨state, hstate, htag⟩ := bind_eq_ok.mp htag
    obtain ⟨-, rfl⟩ := Prod.mk.inj (Except.ok.inj htag)
    exact h.tagFloor hstate
  | beginFloor requested transition =>
    refine answer_state h fun id a' hbegin => ?_
    obtain ⟨⟨⟩, -, hbegin⟩ := bind_eq_ok.mp hbegin
    obtain ⟨-, hbegin⟩ := guard_eq_ok.mp hbegin
    obtain ⟨⟨id', state⟩, hstate, hbegin⟩ := bind_eq_ok.mp hbegin
    obtain ⟨-, rfl⟩ := Prod.mk.inj (Except.ok.inj hbegin)
    exact h.beginFloor hstate
  | settleFloor requested id expected commit =>
    rw [turn]
    rw [settleFloor]
    cases a.authorizeAttachment (some requested) with
    | error error => exact h
    | ok u =>
      dsimp only
      split
      · exact h
      · exact h.settleFloor id commit
  | installFrozen requested cut after pending checkpoint =>
    refine answer_state h fun cut' a' hinstall => ?_
    obtain ⟨⟨⟩, -, hinstall⟩ := bind_eq_ok.mp hinstall
    obtain ⟨-, hinstall⟩ := guard_eq_ok.mp hinstall
    obtain ⟨-, hinstall⟩ := guard_eq_ok.mp hinstall
    obtain ⟨⟨⟩, -, hinstall⟩ := bind_eq_ok.mp hinstall
    obtain ⟨candidate, hcandidate, hinstall⟩ := bind_eq_ok.mp hinstall
    obtain ⟨state, hstate, hinstall⟩ := bind_eq_ok.mp hinstall
    obtain ⟨-, rfl⟩ := Prod.mk.inj (Except.ok.inj hinstall)
    exact h.restore hcandidate hstate
  | restoreHistory requested history expected =>
    refine answer_state h fun _ a' hrestore => ?_
    obtain ⟨⟨⟩, -, hrestore⟩ := bind_eq_ok.mp hrestore
    obtain ⟨candidate, hcandidate, hrestore⟩ := bind_eq_ok.mp hrestore
    obtain ⟨state, hstate, hrestore⟩ := bind_eq_ok.mp hrestore
    obtain ⟨-, rfl⟩ := Prod.mk.inj (Except.ok.inj hrestore)
    exact h.restore hcandidate hstate
  | command command | request command =>
    rw [turn]
    dsimp only
    rw [plainCommand]
    split
    · exact h
    · exact h.command a.attachment command
  | _ => exact h

/-- Every state of an actor's run is reachable. -/
theorem after_reachable {document : Document P} (hvalid : document.Valid) (identity : ActorIdentity)
    (revision : TimelineRevision) (messages : List (CoreMessage P)) (k : ℕ) :
    Reachable ((spawn identity document revision).after messages k).state := by
  have hreached : ((spawn identity document revision).after messages k).ManualCurrent ∧
      Reachable ((spawn identity document revision).after messages k).state :=
    Trace.invariant (I := fun a : ActorState P => a.ManualCurrent ∧ Reachable a.state)
      (fun a message ha => ⟨ha.1.turn message, turn_reachable ha.1 ha.2 message⟩)
      ⟨manualCurrent_spawn identity document revision, .spawn hvalid revision⟩ k
  exact hreached.2

end ActorState

/-! ## Closing a replayed history -/

/-- `HistorySnapshot::encoded_bytes`: refuse too many commands, too many bytes and what cannot be serialized. -/
def HistorySnapshot.encodedBytes [Wire P] (snapshot : HistorySnapshot P) : Except HistoryError ℕ :=
  if snapshot.batches.length > historyCommands then .error .capacity
  else do
    let bytes ← okOr (snapshotJson snapshot) .capacity
    if bytes.length ≤ historyBytes then .ok bytes.length else .error .capacity

/-- `HistoryTransition::recovery_close`. The private actor starts from a valid baseline and restores only a history
within the bounds. -/
def HistorySnapshot.recoveryClose [Wire P] (before reconciled : HistorySnapshot P) :
    Except HistoryError (HistorySnapshot P) :=
  if before ≠ reconciled then .error .corrupt
  else match validateDocument before.baseline with
    | .error _ => .error .corrupt
    | .ok () => do
      let _ ← before.encodedBytes
      Core.recoveryClose before reconciled

/-- The history with its last gesture closed. -/
structure Closed (before after : HistorySnapshot P) : Prop where
  document : after.document = before.document
  applied : after.appliedOperations = before.appliedOperations
  undo : after.cursor.undo.map GestureBoundary.document = before.cursor.undo.map GestureBoundary.document
  redo : after.cursor.redo = before.cursor.redo
  closed : ∀ entry ∈ after.cursor.undo.getLast?, entry.coalesceKey = none

namespace CoreState

variable {s : CoreState P}

/-- No gesture is open behind the redo stack of a state that is the replay of its batches. -/
theorem Replayed.settled (h : s.Replayed) : s.undoStacks.Settled := by
  obtain ⟨t, hreplay, htwin⟩ := h.replays
  rw [← htwin.undoStacks]
  exact replay_preserves (fun t => t.undoStacks.Settled)
    (fun _ _ m _ hs _ _ => Stacks.Settled.move hs m) (fun hredo => absurd rfl hredo) hreplay

omit [Rules P] in
theorem getLast?_history (s : CoreState P) : s.history.cursor.undo.getLast? = s.undo.getLast?.map boundary :=
  getLast?_map

omit [Rules P] in
theorem closed_history_iff : (∀ entry ∈ s.history.cursor.undo.getLast?, entry.coalesceKey = none) ↔
    UndoStack.ClosedOnTop s.undo := by
  rw [getLast?_history, UndoStack.ClosedOnTop]
  cases s.undo.getLast? with
  | none =>
    constructor
    · rintro - _ ⟨⟩
    · rintro - _ ⟨⟩
  | some e => exact ⟨fun h e' he' => Option.some.inj he' ▸ h _ rfl, fun h e' he' => Option.some.inj he' ▸ h e rfl⟩

omit [Rules P] in
theorem appliedOperations_history (s : CoreState P) :
    s.history.appliedOperations = s.undo.flatMap UndoStack.Entry.operations := by
  rw [HistorySnapshot.appliedOperations, history, flatMap_map]
  rfl

/-- A history with no open gesture is closed as it stands. -/
theorem Replayed.recoveryClose_eq (h : s.Replayed) (hclosed : UndoStack.ClosedOnTop s.undo) :
    recoveryClose s.history s.history = .ok s.history := by
  obtain ⟨t, hrestore, hhistory, -⟩ := h.restore_history
  have hopen : (s.history.cursor.undo.getLast?.any fun entry => entry.coalesceKey.isSome) = false := by
    rw [← Bool.not_eq_true, Option.any_eq_true]
    rintro ⟨entry, hentry, hsome⟩
    rw [closed_history_iff.mpr hclosed entry hentry] at hsome
    cases hsome
  rw [recoveryClose, if_neg (not_not.mpr rfl), hrestore]
  simp only [hopen]
  refine bind_eq_ok.mpr ⟨t, rfl, guard_eq_ok.mpr ⟨by simp, guard_eq_ok.mpr ⟨?_, ?_⟩⟩⟩
  · simp [hhistory]
  · simp only [hhistory, Bool.false_eq_true, if_false]
    rfl

omit [Rules P] in
theorem closed_of_undoStacks {t : CoreState P} {us : List (HistoryEntry P)} {e : HistoryEntry P}
    (hundo : s.undo = us ++ [e]) (hredo : s.redo = [])
    (ht : t.undoStacks = ⟨s.document, us.modifyLast UndoStack.closeGesture ++ [UndoStack.closeGesture e], []⟩) :
    Closed s.history t.history := by
  obtain ⟨hdocument, hundo', hredo'⟩ := Stacks.mk.inj ht
  refine ⟨hdocument, ?_, ?_, ?_, ?_⟩
  · rw [appliedOperations_history, appliedOperations_history, hundo', hundo, flatMap_append,
      flatMap_append, flatMap_def, flatMap_def,
      map_modifyLast closeGesture_operations]
    rfl
  · rw [history, history, map_map, map_map]
    change t.undo.map UndoStack.Entry.document = s.undo.map UndoStack.Entry.document
    rw [hundo', hundo, map_append, map_append, map_modifyLast closeGesture_document]
    rfl
  · rw [history, history, hredo', hredo]
  · rw [closed_history_iff, hundo']
    exact closedOnTop_concat.mpr rfl

/-- A history with an open gesture is closed by an undo and a redo. -/
theorem Replayed.recoveryClose_open {us : List (HistoryEntry P)} {e : HistoryEntry P} (h : s.Replayed)
    (hundo : s.undo = us ++ [e]) (hkey : e.coalesceKey ≠ none) :
    ∃ t : CoreState P, t.Replayed ∧ recoveryClose s.history s.history = .ok t.history ∧ Closed s.history t.history := by
  obtain ⟨t, hrestore, hhistory, htwin⟩ := h.restore_history
  have hredo : s.redo = [] := by
    by_contra hredo
    have hclosed := h.settled hredo
    rw [undoStacks_undo, hundo] at hclosed
    exact hkey (closedOnTop_concat.mp hclosed)
  have hopen : (s.history.cursor.undo.getLast?.any fun entry => entry.coalesceKey.isSome) = true := by
    rw [getLast?_history, hundo, getLast?_concat]
    exact Option.isSome_iff_ne_none.mpr hkey
  have hnone : ¬ (True ∧ s.history.cursor.redo ≠ []) := by
    rw [history, hredo]
    simp
  let next : CoreState P := ((t.executeCommand .undo).2.executeCommand .redo).2
  have hclosed : Closed s.history next.history := by
    refine closed_of_undoStacks hundo hredo ?_
    rw [executeCommand_redo_undoStacks, executeCommand_undo_undoStacks, htwin.undoStacks,
      Stacks.redoStep_undoStep hundo hredo]
    rfl
  have hlength := congrArg List.length hclosed.undo
  rw [length_map, length_map] at hlength
  refine ⟨next, ((restore_ok hrestore).1.executeCommand .undo).executeCommand .redo, ?_, hclosed⟩
  rw [recoveryClose, if_neg (not_not.mpr rfl), hrestore]
  simp only [hopen]
  refine bind_eq_ok.mpr ⟨t, rfl, guard_eq_ok.mpr ⟨hnone, guard_eq_ok.mpr ⟨?_, rfl⟩⟩⟩
  simp only [if_true, not_or, not_not]
  exact ⟨hclosed.document.symm, hclosed.applied.symm, hlength.symm, hclosed.redo.symm⟩

/-- A replayed history is closed, and what it is closed to is replayed and stays as it is. -/
theorem Replayed.exists_closed (h : s.Replayed) : ∃ t : CoreState P, t.Replayed ∧
    recoveryClose s.history s.history = .ok t.history ∧ Closed s.history t.history := by
  rcases eq_nil_or_concat' s.undo with hnil | ⟨us, e, hconcat⟩
  · have hclosed : UndoStack.ClosedOnTop s.undo := by
      rw [hnil]
      exact nofun
    exact ⟨s, h, h.recoveryClose_eq hclosed, rfl, rfl, rfl, rfl, closed_history_iff.mpr hclosed⟩
  · by_cases hkey : e.coalesceKey = none
    · have hclosed : UndoStack.ClosedOnTop s.undo := by
        rw [hconcat]
        exact closedOnTop_concat.mpr hkey
      exact ⟨s, h, h.recoveryClose_eq hclosed, rfl, rfl, rfl, rfl, closed_history_iff.mpr hclosed⟩
    · exact h.recoveryClose_open hconcat hkey

/-- The bounds and the baseline of a replayed history are all that its close asks for besides. -/
theorem Replayed.recoveryClose_history [Wire P] (h : s.Replayed) : s.history.recoveryClose s.history =
      s.history.encodedBytes >>= fun _ => Core.recoveryClose s.history s.history := by
  rw [HistorySnapshot.recoveryClose, if_neg (not_not.mpr rfl)]
  rw [show validateDocument s.history.baseline = .ok () from h.baseline_valid]

end CoreState

namespace ActorState

variable [Wire P]

/-- Whatever an actor did, the history that it exports can be closed if it fits the bounds, closing keeps what it
holds, and to close it again changes nothing. Behind a redo stack no gesture is open. -/
theorem recoveryClose_exported {document : Document P} (hvalid : document.Valid) (identity : ActorIdentity)
    (revision : TimelineRevision) (messages : List (CoreMessage P)) (k : ℕ) :
    let before := ((spawn identity document revision).after messages k).state.history
    (before.cursor.redo ≠ [] → ∀ entry ∈ before.cursor.undo.getLast?, entry.coalesceKey = none) ∧
      ∀ bytes, before.encodedBytes = .ok bytes →
        ∃ after, before.recoveryClose before = .ok after ∧ Closed before after ∧
          after.recoveryClose after = after.encodedBytes.map fun _ => after := by
  intro before
  have hreplayed := (after_reachable hvalid identity revision messages k).restorable.replayed
  refine ⟨fun hredo => ?_, fun bytes hbytes => ?_⟩
  · refine CoreState.closed_history_iff.mpr (hreplayed.settled fun hnil => hredo ?_)
    exact map_eq_nil_iff.mpr hnil
  · obtain ⟨t, ht, hclose, hclosed⟩ := hreplayed.exists_closed
    refine ⟨t.history, ?_, hclosed, ?_⟩
    · rw [hreplayed.recoveryClose_history]
      exact bind_eq_ok.mpr ⟨bytes, hbytes, hclose⟩
    · rw [ht.recoveryClose_history, ht.recoveryClose_eq (CoreState.closed_history_iff.mp hclosed.closed)]
      cases t.history.encodedBytes <;> rfl

/-- A gesture of two edits of a total. -/
theorem recoveryClose_exported_tally : let messages : List (CoreMessage tally) :=
      [.command (.doBatchCoalesced [.other 5] "drag"), .command (.doBatchCoalesced [.other 2] "drag")]
    let before := (tallyStart.after messages 2).state.history
    ∃ after, before.recoveryClose before = .ok after ∧ Closed before after ∧
      after.recoveryClose after = after.encodedBytes.map fun _ => after := by
  intro messages before
  have hvalid : Document.Valid (P := tally) { tracks := [], rest := (0 : ℕ) } := rfl
  have hbytes : before.encodedBytes.toOption.isSome = true := by decide +kernel
  cases h : before.encodedBytes with
  | error error =>
    rw [h] at hbytes
    cases hbytes
  | ok bytes => exact (recoveryClose_exported hvalid 1 0 messages 2).2 bytes h

end ActorState

end Kinewright.Core
