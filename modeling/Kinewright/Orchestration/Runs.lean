import Kinewright.Lib.Trace
import Kinewright.Orchestration.Moves

/-!
# Runs

A run is started by one command and goes on by others, by published results, by what the host does to the
effects, and by what happens to the attempts in between. Every step is a change of the work.
-/

namespace Kinewright.Orchestration

open Fallible Accounting
open Work (Change)

variable {enc : Encoding} {s t : RunProjection} {project : ProjectId} {generation : ℕ}
  {envelope : OrchestrationEnvelope} {previous : Option ObjectRef} {live : Option RuntimeRequest}
  {update : ValidatedRunUpdate}

/-! ## Commands -/

/-- A command that is carried out finds its run pending, or a task in it that still works. -/
def Goes (s : RunProjection) : Prop := s.outcome = .pending ∨ ∃ task ∈ s.tasks, task.state.isCancelledOrDone = false

theorem map_eq_ok_some {ε α : Type} {x : Except ε α} {a : α} (h : some <$> x = .ok (some a)) : x = .ok a := by
  cases x with
  | error error => cases h
  | ok b =>
    obtain rfl : b = a := Option.some.inj (Except.ok.inj h)
    rfl

theorem change_of_applyLifecycle (hs : Shaped enc s)
    (h : applyLifecycle s envelope = .ok (some t)) : Change s.work t.work := by
  unfold applyLifecycle at h
  split at h
  · exact (change_of_beginTurn (map_eq_ok_some h)).2
  · exact (change_of_endTurn (map_eq_ok_some h)).2
  · exact (change_of_backgroundWork (map_eq_ok_some h)).2
  · exact change_of_settleExpiredBackground (map_eq_ok_some h)
  · exact change_of_cancel hs (map_eq_ok_some h)
  · exact change_of_recordContext (map_eq_ok_some h)
  · exact change_of_waitTimeout (map_eq_ok_some h)
  · cases h

/-- The commands of a task's life find the run pending. Some check it themselves, and for the others it is
checked when they are decided on. -/
theorem pending_of_applyLifecycle (hdecide : decideNext s envelope.command = .ok .lifecycle)
    (h : applyLifecycle s envelope = .ok (some t)) : s.outcome = .pending := by
  unfold applyLifecycle at h
  split at h
  · exact (change_of_beginTurn (map_eq_ok_some h)).1
  · exact (change_of_endTurn (map_eq_ok_some h)).1
  · exact (change_of_backgroundWork (map_eq_ok_some h)).1
  case h_8 => cases h
  all_goals
    next hcommand =>
    rw [hcommand, decideNext] at hdecide
    split at hdecide
    · assumption
    · cases hdecide

theorem change_of_applyAuthorized (hs : Shaped enc s)
    (h : applyAuthorized s envelope live = .ok (some t)) : Goes s ∧ Change s.work t.work := by
  unfold applyAuthorized at h
  split at h
  · exact (change_of_applyAttention rfl (map_eq_ok_some h)).imp_left .inl
  · exact (change_of_applyAttention rfl (map_eq_ok_some h)).imp_left .inl
  · exact (change_of_applyQuestion (map_eq_ok_some h)).imp_left .inl
  · exact (change_of_applyWake (map_eq_ok_some h)).imp_left .inl
  · exact (change_of_applyWake (map_eq_ok_some h)).imp_left .inl
  · exact (change_of_applyAnswer hs (map_eq_ok_some h)).imp_left .inl
  · have hexpire := map_eq_ok_some h
    refine ⟨.inr ?_, change_of_applyExpire hexpire⟩
    simp only [applyExpire, bind_eq_ok, refuse_eq_ok, not_not] at hexpire
    obtain ⟨⟨⟩, ⟨task, htask, _, _, hopen⟩, _⟩ := hexpire
    exact ⟨task, htask, TaskState.isCancelledOrDone_of_isClosed hopen⟩
  · cases h

theorem change_of_applyMailbox (h : applyMailbox s envelope = .ok (some t)) :
    s.outcome = .pending ∧ Change s.work t.work := by
  unfold applyMailbox at h
  split at h
  · exact change_of_offerDeliveries (map_eq_ok_some h)
  · exact change_of_observeDelivery (map_eq_ok_some h)
  · cases h

theorem change_of_lifecycle (hs : Shaped enc s) (hdecide : decideNext s envelope.command = .ok .lifecycle)
    (h : lifecycle s envelope live = .ok t) : Goes s ∧ Change s.work t.work := by
  simp only [lifecycle, bind_eq_ok] at h
  obtain ⟨_ | u, hlifecycle, h⟩ := h
  · obtain ⟨_ | u, hauthorized, h⟩ := bind_eq_ok.mp h
    · obtain ⟨_ | u, hmailbox, h⟩ := bind_eq_ok.mp h
      · cases h
      · cases h
        exact (change_of_applyMailbox hmailbox).imp_left .inl
    · cases h
      exact change_of_applyAuthorized hs hauthorized
  · cases h
    exact ⟨.inl (pending_of_applyLifecycle hdecide hlifecycle), change_of_applyLifecycle hs hlifecycle⟩

variable {transition : Transition}

theorem of_decideControl {intent : RunIntent} (h : decideControl s intent = .ok transition) :
    (∃ reason, transition = .refused reason) ∨ s.outcome = .pending ∧ transition = .control intent.action := by
  simp only [decideControl, bind_eq_ok] at h
  obtain ⟨⟨⟩, _, h⟩ := h
  split at h
  · exact .inl ⟨_, (Except.ok.inj h).symm⟩
  · split at h
    · exact .inl ⟨_, (Except.ok.inj h).symm⟩
    · next heligible =>
      refine .inr ⟨?_, (Except.ok.inj h).symm⟩
      unfold eligible at heligible
      rw [Bool.not_eq_false, Bool.and_eq_true, decide_eq_true_eq] at heligible
      exact heligible.1

variable {command : OrchestrationCommand}

theorem of_decideOther (h : decideOther s command = .ok transition) : (∃ reason, transition = .refused reason) ∨
      ∃ change, transition = .task change ∧ ((∃ assignment, decideAssign s assignment = .ok change) ∨
        ∃ id, decideFreeze s id = .ok change) := by
  simp only [decideOther, bind_eq_ok] at h
  obtain ⟨_ | change, htask, h⟩ := h
  · exact .inl ⟨_, (Except.ok.inj h).symm⟩
  · refine .inr ⟨change, (Except.ok.inj h).symm, ?_⟩
    unfold decideTask at htask
    split at htask
    · exact .inl ⟨_, map_eq_ok_some htask⟩
    · exact .inr ⟨_, map_eq_ok_some htask⟩
    · cases htask

/-- What a command was decided to be, and on which condition. -/
inductive Decided (s : RunProjection) : Transition → Prop
  | refused (reason : RecordedRefusal) : Decided s (.refused reason)
  | lifecycle : Decided s .lifecycle
  | control (hpending : s.outcome = .pending) (action : RunAction) : Decided s (.control action)
  | assign {assignment : AssignTask} {change : TaskTransition}
      (h : decideAssign s assignment = .ok change) : Decided s (.task change)
  | freeze {id : TaskId} {change : TaskTransition} (h : decideFreeze s id = .ok change) : Decided s (.task change)

theorem decided_of_decideOther (h : decideOther s command = .ok transition) : Decided s transition := by
  rcases of_decideOther h with ⟨reason, rfl⟩ | ⟨change, rfl, ⟨_, h⟩ | ⟨_, h⟩⟩
  · exact .refused reason
  · exact .assign h
  · exact .freeze h

theorem decided_of_decideNext (h : decideNext s command = .ok transition) : Decided s transition := by
  unfold decideNext at h
  split at h
  · rcases of_decideControl h with ⟨reason, rfl⟩ | ⟨hpending, rfl⟩
    · exact .refused reason
    · exact .control hpending _
  case h_16 => exact decided_of_decideOther h
  all_goals
    first
      | (cases h; exact .lifecycle)
      | (split at h; · cases h; exact .lifecycle
         · cases h)

theorem change_of_transit (hs : Shaped enc s) (hdecide : decideNext s envelope.command = .ok transition)
    (h : transit enc s envelope live transition = .ok (some t)) : Goes s ∧ Change s.work t.work := by
  cases decided_of_decideNext hdecide with
  | refused reason => cases h
  | lifecycle => exact change_of_lifecycle hs hdecide (map_eq_ok_some h)
  | control hpending action =>
    refine ⟨.inl hpending, ?_⟩
    have h := map_eq_ok_some h
    cases action with
    | pause | «continue» =>
      cases h
      exact .refl _
    | stop => exact change_of_stop hs h
    | sendMessage text => exact change_of_sendMessage h
  | assign hassign => exact (change_of_assign hassign (map_eq_ok_some h)).imp_left .inl
  | freeze hfreeze =>
    obtain ⟨hchange, task, htask, hopen⟩ := change_of_freeze hs hfreeze (map_eq_ok_some h)
    exact ⟨.inr ⟨task, htask, TaskState.isCancelledOrDone_of_isClosed hopen⟩, hchange⟩

/-! ## Steps -/

/-- One step of a run. Between commands the attempts may change, and the summary of the cleanup with
them, in any way that leaves the projection valid. -/
inductive Step (enc : Encoding) : RunProjection → RunProjection → Prop
  | command {s : RunProjection} {project : ProjectId} {generation : ℕ}
      {envelope : OrchestrationEnvelope} {previous : Option ObjectRef} {live : Option RuntimeRequest}
      {update : ValidatedRunUpdate}
      (h : prepareWithAttention enc (some s) project generation envelope previous live = .ok update) :
      Step enc s update.projection
  | result {s : RunProjection} {project : ProjectId} {generation : ℕ}
      {envelope : OrchestrationEnvelope} {previous : Option ObjectRef} {result : ObjectRef}
      {update : ValidatedRunUpdate}
      (h : prepareResultUpdate enc s project generation envelope previous result = .ok update) :
      Step enc s update.projection
  | claim {s t : RunProjection} {id : EffectId} {attempt : AttemptId} (h : claim s id attempt = .ok t) : Step enc s t
  | outcomeUnknown {s t : RunProjection} {id : EffectId} {attempt : AttemptId}
      (h : outcomeUnknown s id attempt = .ok t) : Step enc s t
  | retryReconciledSafe {s t : RunProjection} {id : EffectId} (h : retryReconciledSafe s id = .ok t) : Step enc s t
  | attempts {s : RunProjection} {attempts : List AttemptReservation} {cleanup : RunCleanup}
      (h : validateProjection enc { s with
        attempts := attempts
        cleanup := cleanup } = .ok ()) :
      Step enc s { s with
        attempts := attempts
        cleanup := cleanup }

/-- The projection of a run that was just started. -/
def Started (enc : Encoding) (s : RunProjection) : Prop :=
  ∃ project generation envelope previous live update,
    prepareWithAttention enc none project generation envelope previous live = .ok update ∧ update.projection = s

/-- A projection that a run reaches. -/
def Reachable (enc : Encoding) (s : RunProjection) : Prop :=
  ∃ first, Started enc first ∧ Relation.ReflTransGen (Step enc) first s

/-- What a command that was not refused with an error leaves of the work. -/
theorem work_of_nextProjection {next : RunProjection} (h : nextProjection enc s envelope live transition = .ok next) :
    (next = s ∧ transit enc s envelope live transition = .ok none) ∨
      ∃ t, transit enc s envelope live transition = .ok (some t) ∧ next.work = t.work := by
  simp only [nextProjection, bind_eq_ok] at h
  obtain ⟨_ | t, htransit, h⟩ := h
  · cases h
    exact .inl ⟨rfl, htransit⟩
  · cases h
    refine .inr ⟨t, htransit, ?_⟩
    rw [work_refreshWait]
    rfl

/-- The host leaves every record where it is. -/
theorem formed_setEffect (hw : s.work.Formed) (id : EffectId) (state : EffectState) :
    (s.setEffect id state).work.Formed := by
  have hids : (s.setEffect id state).effects.map EffectRecord.id = s.effects.map EffectRecord.id := by
    apply List.map_modifyFirst
    exact fun _ _ => rfl
  have hplaces : ((s.setEffect id state).effects.map fun effect => (effect.lane, effect.order)) =
      s.effects.map fun effect => (effect.lane, effect.order) := by
    apply List.map_modifyFirst
    exact fun _ _ => rfl
  exact { hw with
    effectIds := hids.symm ▸ hw.effectIds
    places := hplaces.symm ▸ hw.places }

/-- Every step of a run is a change of the work, and leaves every record there once. -/
theorem change_of_step (hw : s.work.Formed) (h : Step enc s t) : Change s.work t.work ∧ t.work.Formed := by
  cases h with
  | command h =>
    obtain ⟨transition, next, hvalid, hdecide, hnext, hprojection, _, hok, _⟩ := prepareNext_eq_ok h
    refine ⟨?_, (shaped_of_valid hok).formed⟩
    rw [hprojection]
    rcases work_of_nextProjection hnext with ⟨rfl, _⟩ | ⟨u, htransit, hwork⟩
    · exact .refl _
    · have hchange := (change_of_transit (shaped_of_valid hvalid) hdecide htransit).2
      rw [← hwork] at hchange
      exact hchange
  | result h =>
    obtain ⟨id, published, next, hvalid, _, hpublish, hprojection, _, hok⟩ := prepareResultUpdate_eq_ok h
    refine ⟨?_, (shaped_of_valid hok).formed⟩
    rw [hprojection]
    exact (change_of_publishResult (shaped_of_valid hvalid) hpublish).2
  | claim h =>
    obtain ⟨⟨state, rfl⟩, hchange⟩ := change_of_claim hw h
    exact ⟨hchange, formed_setEffect hw _ state⟩
  | outcomeUnknown h =>
    obtain ⟨⟨state, rfl⟩, hchange⟩ := change_of_outcomeUnknown hw h
    exact ⟨hchange, formed_setEffect hw _ state⟩
  | retryReconciledSafe h =>
    obtain ⟨⟨state, rfl⟩, hchange⟩ := change_of_retryReconciledSafe hw h
    exact ⟨hchange, formed_setEffect hw _ state⟩
  | attempts h => exact ⟨.refl _, (shaped_of_valid h).formed⟩

/-- The work of a run that was just started: the director waits to be prepared. -/
def Work.IsFirst (w : Work) : Prop :=
  ∃ task effect, task.parent = none ∧ task.state = .queued ∧ effect.state = .pending ∧
    w = ⟨.pending, [task], [effect], [], [], []⟩

theorem isFirst_of_started (h : Started enc s) : s.work.Formed ∧ s.work.IsFirst := by
  obtain ⟨project, generation, envelope, previous, live, update, h, rfl⟩ := h
  obtain ⟨brief, _, _, hprojection, _, hok⟩ := prepareFirst_eq_ok h
  refine ⟨(shaped_of_valid hok).formed, directorTask enc envelope brief,
    prepareEffect enc envelope (directorTask enc envelope brief) 1, rfl, rfl, rfl, ?_⟩
  rw [hprojection]
  exact (work_refreshWait _).trans rfl

/-- An invariant of the work, from its first state on, holds in every state of a run. -/
theorem invariant_of_reachable {I : Work → Prop} (hfirst : ∀ w, w.IsFirst → I w)
    (hstep : ∀ w w' : Work, w.Formed → w'.Formed → I w → Change w w' → I w') (h : Reachable enc s) :
    s.work.Formed ∧ I s.work := by
  obtain ⟨first, hstarted, hrun⟩ := h
  obtain ⟨hformed, hisFirst⟩ := isFirst_of_started hstarted
  refine Trace.reach_invariant (I := fun s : RunProjection => s.work.Formed ∧ I s.work) ?_
    ⟨hformed, hfirst _ hisFirst⟩ hrun
  rintro s t ⟨hs, hI⟩ hstep'
  obtain ⟨hchange, ht⟩ := change_of_step hs hstep'
  exact ⟨ht, hstep _ _ hs ht hI hchange⟩

end Kinewright.Orchestration
