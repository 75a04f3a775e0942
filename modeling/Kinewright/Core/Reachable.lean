import Kinewright.Core.SaveBarrier

/-!
# Reachable states survive export and restore

The states that an actor's history can reach, through commands, restores and save floors. Each is
the replay of its own batches, so it can be restored from its exported history; and the restored
state answers every further command as the original does, but for the offset of its revisions.
-/

namespace Kinewright.Core

variable {P : Payload} [Rules P]

namespace CoreState

/-- The states that an actor can hold. -/
inductive Reachable : CoreState P → Prop
  | spawn {document : Document P} (hvalid : document.Valid) (revision : TimelineRevision) :
      Reachable (new document revision)
  | command {s : CoreState P} (hs : Reachable s) (attachment : AttachmentState)
      (command : Command P) : Reachable (s.executeActorCommand attachment command).2
  | restore {s candidate s' : CoreState P} (hs : Reachable s) {snapshot : HistorySnapshot P}
      (hrestore : restore snapshot = .ok candidate) (hinstall : s.install candidate = .ok s') :
      Reachable s'
  | beginFloor {s s' : CoreState P} (hs : Reachable s) {actor : ActorIdentity}
      {transition : HistoryTransition P} {id : ℕ}
      (hbegin : s.beginFloor actor transition = .ok (id, s')) : Reachable s'
  | tagFloor {s s' : CoreState P} (hs : Reachable s) {id : ℕ} {tag : Option HistorySaveTag}
      {ready : Bool} (htag : s.tagFloor id tag ready = .ok s') : Reachable s'
  | settleFloor {s : CoreState P} (hs : Reachable s) (id : ℕ) (commit : Bool) : Reachable (s.settleFloor id commit).2

/-- The invariant of reachable states. -/
structure Restorable (s : CoreState P) : Prop where
  replayed : s.Replayed
  floor_valid : ∀ pending ∈ s.pendingFloor, pending.baseline.Valid

namespace Restorable

variable {s s' : CoreState P}

theorem executeActorCommand (h : s.Restorable) (attachment : AttachmentState)
    (command : Command P) : (s.executeActorCommand attachment command).2.Restorable := by
  have hframe := s.executeActorCommand_sameFrame attachment command
  refine ⟨?_, by rw [hframe.pendingFloor]; exact h.floor_valid⟩
  have hspec := s.executeActorCommand_executed attachment command
  generalize s.executeActorCommand attachment command = result at hspec
  rcases hspec with ⟨-, -⟩ | ⟨-, -, -, -⟩ | ⟨-, -⟩
  · exact h.replayed
  · exact h.replayed
  · exact h.replayed.executeCommand command

theorem install {snapshot : HistorySnapshot P} {candidate : CoreState P}
    (hrestore : CoreState.restore snapshot = .ok candidate)
    (hinstall : s.install candidate = .ok s') : s'.Restorable := by
  obtain ⟨hcandidate, -, hnone⟩ := restore_ok hrestore
  obtain ⟨historyEpoch, -, hinstall⟩ := bind_eq_ok.mp hinstall
  obtain ⟨revision, -, hinstall⟩ := bind_eq_ok.mp hinstall
  obtain rfl := Except.ok.inj hinstall
  refine ⟨hcandidate.of_twin ⟨rfl, rfl, rfl, rfl, rfl⟩ rfl, ?_⟩
  intro pending hpending
  rw [show candidate.pendingFloor = some pending from hpending] at hnone
  cases hnone

theorem beginFloor (h : s.Restorable) {actor : ActorIdentity} {transition : HistoryTransition P}
    {id : ℕ} (hbegin : s.beginFloor actor transition = .ok (id, s')) : s'.Restorable := by
  obtain ⟨pending, rfl, -, -, -, -, -, -, -, hvalid⟩ := beginFloor_ok hbegin
  refine ⟨h.replayed.of_twin ⟨rfl, rfl, rfl, rfl, rfl⟩ rfl, ?_⟩
  intro pending' hpending'
  obtain rfl : pending = pending' := Option.some.inj hpending'
  exact hvalid h.replayed.baseline_valid

theorem tagFloor (h : s.Restorable) {id : ℕ} {tag : Option HistorySaveTag} {ready : Bool}
    (htag : s.tagFloor id tag ready = .ok s') : s'.Restorable := by
  obtain ⟨pending, save, hpending, rfl⟩ := tagFloor_ok htag
  refine ⟨h.replayed.of_twin ⟨rfl, rfl, rfl, rfl, rfl⟩ rfl, ?_⟩
  intro pending' hpending'
  rw [← Option.some.inj hpending']
  exact h.floor_valid pending hpending

theorem commitFloor {pending : PendingFloor P} (hvalid : pending.baseline.Valid)
    (hcommit : s.commitFloor pending = .ok s') : s'.Restorable := by
  obtain ⟨-, hcommit⟩ := guard_eq_ok.mp hcommit
  obtain ⟨candidate, hreplay, hcommit⟩ := bind_eq_ok.mp hcommit
  obtain ⟨-, hcommit⟩ := guard_eq_ok.mp hcommit
  obtain ⟨revision, -, hcommit⟩ := bind_eq_ok.mp hcommit
  obtain ⟨historyEpoch, -, hcommit⟩ := bind_eq_ok.mp hcommit
  obtain rfl := Except.ok.inj hcommit
  have hstart : Replayed { new pending.baseline 0 with floorOffset := pending.offset } :=
    (replayed_new hvalid 0).of_twin ⟨rfl, rfl, rfl, rfl, rfl⟩ rfl
  have hcandidate : candidate.Replayed :=
    replay_preserves Replayed (fun _ _ _ _ hs hc hm => hs.accept hc hm) hstart hreplay
  have hnone : candidate.pendingFloor = none := (replay_sameFrame hreplay).pendingFloor
  refine ⟨hcandidate.of_twin ⟨rfl, rfl, rfl, rfl, rfl⟩ rfl, ?_⟩
  intro pending' hpending'
  rw [show candidate.pendingFloor = some pending' from hpending'] at hnone
  cases hnone

theorem releaseFloor (h : s.Restorable) : s.releaseFloor.Restorable :=
  ⟨h.replayed.of_twin ⟨rfl, rfl, rfl, rfl, rfl⟩ rfl, nofun⟩

theorem settleFloor (h : s.Restorable) (id : ℕ) (commit : Bool) : (s.settleFloor id commit).2.Restorable := by
  rcases hsettle : s.settleFloor id commit with ⟨reply, s'⟩
  rcases settleFloor_cases hsettle with rfl | rfl | ⟨pending, hpending, hcommit⟩
  · exact h
  · exact h.releaseFloor
  · exact commitFloor (h.floor_valid pending hpending) hcommit

end Restorable

theorem Reachable.restorable {s : CoreState P} (h : Reachable s) : s.Restorable := by
  induction h with
  | spawn hvalid revision => exact ⟨replayed_new hvalid revision, nofun⟩
  | command hs attachment command ih => exact ih.executeActorCommand attachment command
  | restore hs hrestore hinstall ih => exact Restorable.install hrestore hinstall
  | beginFloor hs hbegin ih => exact ih.beginFloor hbegin
  | tagFloor hs htag ih => exact ih.tagFloor htag
  | settleFloor hs id commit ih => exact ih.settleFloor id commit

end CoreState

/-! ## Two revision lineages -/

/-- Whether the command is sent against an expected revision. -/
def Command.isGated : Command P → Bool
  | .doIfRevision .. | .doBatchIfRevision .. => true
  | _ => false

/-- The same command sent to two states whose revisions count from `base` and from `base'`: for the
next `steps` revisions the two gates are open or closed together. -/
inductive Command.Translated (base base' steps : ℕ) : Command P → Command P → Prop
  | operation {expected expected' : ℕ} {operation : Operation P} {token : Option CommandToken}
      (gate : ∀ n ≤ steps, expected = base + n ↔ expected' = base' + n) :
      Translated base base' steps (.doIfRevision expected operation token) (.doIfRevision expected' operation token)
  | batch {expected expected' : ℕ} {operations : List (Operation P)}
      (gate : ∀ n ≤ steps, expected = base + n ↔ expected' = base' + n) :
      Translated base base' steps (.doBatchIfRevision expected operations) (.doBatchIfRevision expected' operations)
  | ungated {command : Command P} (hungated : command.isGated = false) : Translated base base' steps command command

omit [Rules P] in
/-- A gate moved by the offset of the two bases is translated. -/
theorem Command.translated_of_offset {base base' expected expected' : ℕ}
    (hoffset : expected' + base = expected + base') (steps : ℕ) (operation : Operation P)
    (token : Option CommandToken) :
    Translated base base' steps (.doIfRevision expected operation token) (.doIfRevision expected' operation token) := by
  refine .operation fun n _ => ?_
  omega

omit [Rules P] in
theorem Command.Translated.token {base base' steps : ℕ} {command command' : Command P}
    (hcommand : command.Translated base base' steps command') : command'.token = command.token := by
  rcases hcommand with gate | gate | hungated <;> rfl

/-- The same event of two states whose revisions count from `base` and from `base'`. The gate that a
conflict echoes is the sender's. -/
inductive Event.Corresponds (base base' : ℕ) : Event P → Event P → Prop
  | documentChanged {doc : Document P} {lastOp : Option (Operation P)}
      {journalCommand : Option (JournalCommand P)} {token : Option CommandToken} (n : ℕ) :
      Corresponds base base' (.documentChanged doc (base + n) lastOp journalCommand token)
        (.documentChanged doc (base' + n) lastOp journalCommand token)
  | revisionConflict {expected expected' : TimelineRevision} {token : Option CommandToken} (n : ℕ) :
      Corresponds base base' (.revisionConflict expected (base + n) token)
        (.revisionConflict expected' (base' + n) token)
  | snapshot {document : Document P} (n : ℕ) : Corresponds base base' (.queryResult (.snapshot (base + n) document))
        (.queryResult (.snapshot (base' + n) document))
  | opRejected {op : Operation P} {error : P.OpError} {token : Option CommandToken} :
      Corresponds base base' (.opRejected op error token) (.opRejected op error token)
  | batchRejected {operations : List (Operation P)} {error : BatchError P} :
      Corresponds base base' (.batchRejected operations error) (.batchRejected operations error)
  | queryResult {result : QueryResult P} (hresult : ∀ revision document, result ≠ .snapshot revision document) :
      Corresponds base base' (.queryResult result) (.queryResult result)

namespace CoreState

/-- Twins at the same distance from their bases. -/
structure TwinAt (base base' n : ℕ) (s t : CoreState P) : Prop where
  twin : Twin s t
  revision : s.revision = base + n
  revision' : t.revision = base' + n

section TwinAt

variable {base base' n steps : ℕ} {s t : CoreState P} {command command' : Command P}

section

variable (h : TwinAt base base' n s t)

include h

omit [Rules P] in
theorem TwinAt.journalForm (hn : n ≤ steps) (hcommand : command.Translated base base' steps command') :
    command'.journalForm t.revision = command.journalForm s.revision := by
  rw [h.revision, h.revision']
  rcases hcommand with gate | gate | hungated
  · simp only [Command.journalForm, gate n hn]
  · simp only [Command.journalForm, gate n hn]
  · cases command <;> first | rfl | cases hungated

omit [Rules P] in
theorem TwinAt.query (query : Query) :
    Event.Corresponds base base' (.queryResult (s.query query)) (.queryResult (t.query query)) := by
  cases query with
  | snapshot =>
    rw [CoreState.query, CoreState.query, h.revision, h.revision', h.twin.document]
    exact .snapshot n
  | _ =>
    simp only [CoreState.query, h.twin.document, h.twin.undo, h.twin.opLog]
    exact .queryResult nofun

/-- Twins refuse alike. -/
theorem TwinAt.refused (hn : n ≤ steps)
    (hcommand : command.Translated base base' steps command') {event event' : Event P}
    (hs : Refused s command event) (ht : Refused t command' event') :
    event.Corresponds base base' event' := by
  have hdocument := h.twin.document
  rcases hcommand with gate | gate | hungated
  · have gate := gate n hn
    rw [← h.revision, ← h.revision'] at gate
    rcases hs with _ | _ | _ | ⟨open_, heq⟩ | _ | stale <;>
      rcases ht with _ | _ | _ | ⟨open', heq'⟩ | _ | stale'
    · rw [hdocument, heq] at heq'
      cases heq'
      exact .opRejected
    · exact absurd (gate.mp open_) stale'
    · exact absurd (gate.mpr open') stale
    · rw [h.revision, h.revision']
      exact .revisionConflict n
  · have gate := gate n hn
    rw [← h.revision, ← h.revision'] at gate
    rcases hs with _ | _ | _ | _ | ⟨open_, heq⟩ | _ | stale <;>
      rcases ht with _ | _ | _ | _ | ⟨open', heq'⟩ | _ | stale'
    · rw [hdocument, heq] at heq'
      cases heq'
      exact .batchRejected
    · exact absurd (gate.mp open_) stale'
    · exact absurd (gate.mpr open') stale
    · rw [h.revision, h.revision']
      exact .revisionConflict n
  · cases hs <;> cases ht <;> try cases hungated
    case ungated.operation.operation.refl heq _ _ heq' =>
      rw [hdocument, heq] at heq'
      cases heq'
      exact .opRejected
    case ungated.batch.batch.refl heq _ heq' =>
      rw [hdocument, heq] at heq'
      cases heq'
      exact .batchRejected
    case ungated.batchCoalesced.batchCoalesced.refl heq _ heq' =>
      rw [hdocument, heq] at heq'
      cases heq'
      exact .batchRejected
    case ungated.query.query.refl query => exact h.query query

omit [Rules P] in
/-- An accepted command moves both revisions by one, or neither. -/
theorem TwinAt.accept_revision (c : JournalCommand P) (m : HistoryMove P) (effects : List (OperationIdentityEffect P)) :
    ∃ k ≤ n + 1, (s.accept c m effects).revision = base + k ∧ (t.accept c m effects).revision = base' + k := by
  have hstacks := h.twin.undoStacks
  simp only [CoreState.accept, hstacks, h.revision, h.revision']
  by_cases heffective : m.Effective s.undoStacks
  · rw [if_pos heffective, if_pos heffective]
    exact ⟨n + 1, le_rfl, rfl, rfl⟩
  · rw [if_neg heffective, if_neg heffective]
    exact ⟨n, Nat.le_succ n, rfl, rfl⟩

/-- One command keeps twins at one distance, and they answer it alike. -/
theorem TwinAt.executeCommand (hn : n ≤ steps) (hcommand : command.Translated base base' steps command') :
    (s.executeCommand command).1.Corresponds base base' (t.executeCommand command').1 ∧ ∃ m ≤ n + 1,
        TwinAt base base' m (s.executeCommand command).2 (t.executeCommand command').2 := by
  have hform := h.journalForm hn hcommand
  have htwin := (h.twin.executeCommand hform).1
  have hdocument := h.twin.document
  have hs := s.executeCommand_executed command
  have ht := t.executeCommand_executed command'
  generalize s.executeCommand command = rs at hs htwin ⊢
  generalize t.executeCommand command' = rt at ht htwin ⊢
  rcases hs with ⟨form, move⟩ | ⟨refused, why⟩ <;> rcases ht with ⟨form', move'⟩ | ⟨refused', why'⟩
  · rw [hform, form, Option.some.injEq] at form'
    subst form'
    rw [hdocument, move] at move'
    obtain ⟨rfl, rfl⟩ := move'
    obtain ⟨m, hm, hrevision, hrevision'⟩ := h.accept_revision _ _ _
    rw [hrevision, hrevision', hcommand.token, htwin.document]
    exact ⟨.documentChanged m, m, hm, htwin, hrevision, hrevision'⟩
  · have hnone := refused' _ (hform.trans form)
    rw [hdocument, move] at hnone
    cases hnone
  · have hnone := refused _ (hform.symm.trans form')
    rw [← hdocument, move'] at hnone
    cases hnone
  · exact ⟨h.refused hn hcommand why why', n, Nat.le_succ n, htwin, h.revision, h.revision'⟩

end

end TwinAt

/-- The events of a list of commands, each with the state after it. -/
def executeTrace (s : CoreState P) : List (Command P) → List (Event P × CoreState P)
  | [] => []
  | command :: commands => let result := s.executeCommand command
    result :: result.2.executeTrace commands

/-- Twins answer two translated command sequences alike, turn by turn. -/
theorem TwinAt.executeTrace {base base' n steps : ℕ} {s t : CoreState P}
    (h : TwinAt base base' n s t) {commands commands' : List (Command P)}
    (hsteps : n + commands.length ≤ steps)
    (hcommands : List.Forall₂ (Command.Translated base base' steps) commands commands') :
    List.Forall₂ (fun r r' => r.1.Corresponds base base' r'.1 ∧ Twin r.2 r'.2 ∧
      SameFrame s r.2 ∧ SameFrame t r'.2) (s.executeTrace commands) (t.executeTrace commands') := by
  induction hcommands generalizing n s t with
  | nil => exact .nil
  | cons hcommand hcommands ih =>
    rename_i command command' commands commands'
    rw [List.length_cons] at hsteps
    obtain ⟨hevent, m, hm, hnext⟩ := h.executeCommand (by omega : n ≤ steps) hcommand
    have hframe := s.executeCommand_sameFrame command
    have hframe' := t.executeCommand_sameFrame command'
    refine .cons ⟨hevent, hnext.twin, hframe, hframe'⟩ ((ih hnext (by omega)).imp ?_)
    intro r r' ⟨hr, htwin, hrest, hrest'⟩
    exact ⟨hr, htwin, hframe.trans hrest, hframe'.trans hrest'⟩

/-- A reachable state is restored from its exported history to a state with that history, and the
two answer every further sequence of commands alike: the same outcomes, documents, journal commands
and histories, but for the offset of the revisions. -/
theorem restore_history_equivalent {s : CoreState P} (h : Reachable s) :
    ∃ t, restore s.history = .ok t ∧ t.history = s.history ∧ ∀ commands commands' : List (Command P),
        List.Forall₂ (Command.Translated s.revision t.revision commands.length) commands commands' →
        List.Forall₂ (fun r r' => r.1.Corresponds s.revision t.revision r'.1 ∧
          r'.2.history = r.2.history) (s.executeTrace commands) (t.executeTrace commands') := by
  obtain ⟨t, hrestore, hhistory, htwin⟩ := h.restorable.replayed.restore_history
  refine ⟨t, hrestore, hhistory, fun commands commands' hcommands => ?_⟩
  have hstart : TwinAt s.revision t.revision 0 s t := ⟨htwin, rfl, rfl⟩
  have hbaseline : t.baseline = s.baseline := congrArg HistorySnapshot.baseline hhistory
  have hoffset : t.floorOffset = s.floorOffset := congrArg HistorySnapshot.floorOffset hhistory
  refine (hstart.executeTrace (by omega) hcommands).imp ?_
  intro r r' ⟨hevent, htwin, hframe, hframe'⟩
  refine ⟨hevent, htwin.history ?_ ?_⟩
  · rw [hframe.baseline, hframe'.baseline, hbaseline]
  · rw [hframe.floorOffset, hframe'.floorOffset, hoffset]

/-- A total whose older edit a save has dropped, edited once more while the save was pending. -/
def tallySettled : CoreState tally :=
  (((tallySaving tallyEdited tallyEditedFloor).executeActorCommand .live
    (.doBatchCoalesced [.other 5] "drag")).2.settleFloor 1 true).2

theorem tallySettled_reachable : Reachable tallySettled := by
  let empty : Document tally := { tracks := [], rest := (0 : ℕ) }
  have hvalid : validateDocument empty = .ok () := rfl
  have hempty : Reachable (new empty 0) := .spawn hvalid 0
  have hedited : Reachable tallyEdited := (hempty.command .live (.do_ (.other 1))).command .live (.do_ (.other 2))
  have hsaving : Reachable (tallySaving tallyEdited tallyEditedFloor) :=
    hedited.beginFloor (show tallyEdited.beginFloor 7 tallyEditedFloor = .ok (1, _) from rfl)
  exact (hsaving.command .live _).settleFloor 1 true

/-- That total, restored: a gated edit against its own revision and an undo do the same. -/
theorem restore_history_equivalent_tally :
    ∃ t, restore tallySettled.history = .ok t ∧ t.history = tallySettled.history ∧
      List.Forall₂ (fun r r' => r.1.Corresponds tallySettled.revision t.revision r'.1 ∧ r'.2.history = r.2.history)
        (tallySettled.executeTrace [.doIfRevision tallySettled.revision (.other 4) none, .undo])
        (t.executeTrace [.doIfRevision t.revision (.other 4) none, .undo]) := by
  obtain ⟨t, hrestore, hhistory, hequiv⟩ := restore_history_equivalent tallySettled_reachable
  refine ⟨t, hrestore, hhistory, hequiv _ _ (.cons ?_ (.cons ?_ .nil))⟩
  · exact Command.translated_of_offset (Nat.add_comm _ _) _ _ _
  · exact .ungated rfl

end CoreState

end Kinewright.Core
