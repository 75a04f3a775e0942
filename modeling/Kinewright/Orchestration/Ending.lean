import Kinewright.Orchestration.Proposal
import Kinewright.Orchestration.Refresh
import Kinewright.Orchestration.Stop

/-!
# Ending work

Stopping a run and cancelling a task must always be possible. They are, unless the run is blocked in its
cleanup and the command cancels the last task that is blocked: the run then still says that it is
blocked, and its next projection is refused.
-/

namespace Kinewright.Orchestration

open Fallible Accounting Refusal
open List hiding all

variable {enc : Encoding} {s t : RunProjection}

/-! ## References of a published projection -/

/-- The references beside those of the tasks and of the cleanup. -/
def RunProjection.otherRefs (s : RunProjection) : List ObjectRef :=
  s.effects.map EffectRecord.payload ++ s.deliveries.map DeliveryRecord.result ++
    s.attempts.flatMap AttemptReservation.refs ++ s.requests.flatMap RuntimeRequest.refs ++
    s.results ++ s.usage ++ s.outcome.refs ++ s.wait.refs

theorem mem_refs {reference : ObjectRef} : reference ∈ s.refs ↔
    (∃ task ∈ s.tasks, reference ∈ task.refs) ∨ reference ∈ s.otherRefs ∨ reference ∈ s.cleanup.refs := by
  simp only [RunProjection.refs, RunProjection.otherRefs, mem_append, mem_flatMap, or_assoc]

theorem Winds.otherRefs (w : Winds s t) (houtcome : t.outcome.refs = s.outcome.refs)
    (hwait : t.wait.refs = s.wait.refs) : t.otherRefs = s.otherRefs := by
  have hpayloads : t.effects.map EffectRecord.payload = s.effects.map EffectRecord.payload :=
    map_eq_of_forall₂ (fun _ _ h => h.payload) w.effects
  have hresults : t.deliveries.map DeliveryRecord.result = s.deliveries.map DeliveryRecord.result :=
    map_eq_of_forall₂ (fun _ _ h => h.result) w.deliveries
  have hattempts : t.attempts.map AttemptReservation.refs = s.attempts.map AttemptReservation.refs :=
    map_eq_of_forall₂ (fun _ _ h => refs_attempt h) w.attempts
  have hrequests : t.requests.map RuntimeRequest.refs = s.requests.map RuntimeRequest.refs :=
    map_eq_of_forall₂ (fun _ _ h => refs_request h) w.requests
  simp [RunProjection.otherRefs, flatMap_def, hpayloads, hresults, hattempts, hrequests,
    w.results, w.usage, houtcome, hwait]

/-- What must be cleaned up is referred to by its attempt. -/
theorem recoveryRef_mem_otherRefs {identity : CleanupIdentity} (h : identity ∈ s.required) :
    identity.recoveryRef ∈ s.otherRefs := by
  obtain ⟨reservation, hmem, rfl⟩ := mem_map.mp h
  have hattempt : reservation ∈ s.attempts := (mem_filter.mp hmem).1
  have hrefs : reservation.recoveryRef ∈ s.attempts.flatMap AttemptReservation.refs :=
    mem_flatMap.mpr ⟨reservation, hattempt, mem_cons_self⟩
  simp only [RunProjection.otherRefs, mem_append]
  tauto

theorem perm_of_sameCleanupSet {required actual : List CleanupIdentity} (hnodup : required.Nodup)
    (h : sameCleanupSet required actual = .ok ()) : required.Perm actual := by
  rw [sameCleanupSet, refuse_eq_ok] at h
  push Not at h
  obtain ⟨hlength, hcount⟩ := h
  have hsubset : required ⊆ actual := by
    intro identity hidentity
    rw [← count_pos_iff, hcount identity hidentity]
    exact Nat.one_pos
  exact (subperm_of_subset hnodup hsubset).perm_of_length_le hlength.ge

/-- What the cleanup of a projection in shape refers to. -/
theorem Shaped.mem_cleanup_refs (h : Shaped enc s) {reference : ObjectRef} :
    reference ∈ s.cleanup.refs → reference ∈ s.otherRefs ∨
      ∃ identities reason, s.cleanup = .blocked identities reason ∧ reference = reason := by
  have hsummary := h.summary
  have hidentities (identities : List CleanupIdentity) (hsame : sameCleanupSet s.required identities = .ok ())
      (hmem : reference ∈ identities.map CleanupIdentity.recoveryRef) :
      reference ∈ s.otherRefs := by
    obtain ⟨identity, hidentity, rfl⟩ := mem_map.mp hmem
    have hperm := perm_of_sameCleanupSet (nodup_required h.attemptIds) hsame
    exact recoveryRef_mem_otherRefs (hperm.mem_iff.mpr hidentity)
  intro hmem
  unfold checkCleanupSummary at hsummary
  rcases hcleanup : s.cleanup with _ | identities | ⟨identities, reason⟩
  · rw [hcleanup] at hmem
    cases hmem
  · rw [hcleanup] at hmem hsummary
    exact .inl (hidentities identities (unless_eq_ok.mp hsummary).2 hmem)
  · rw [hcleanup] at hmem hsummary
    rcases mem_append.mp hmem with hmem | hmem
    · exact .inl (hidentities identities (unless_eq_ok.mp hsummary).2 hmem)
    · exact .inr ⟨identities, reason, rfl, mem_singleton.mp hmem⟩

/-- Cancellations neither add a reference nor lose one. -/
theorem Winds.referenced_iff (w : Winds s t) (hs : Shaped enc s) (ht : Shaped enc t)
    (houtcome : t.outcome.refs = s.outcome.refs) (hwait : t.wait.refs = s.wait.refs)
    (hreason : ∀ reason, (∃ identities, t.cleanup = .blocked identities reason) ↔
      ∃ identities, s.cleanup = .blocked identities reason) : Referenced t ↔ Referenced s := by
  have hother := w.otherRefs houtcome hwait
  have hblocked {u : RunProjection} {identities : List CleanupIdentity} {reason : ObjectRef}
      (h : u.cleanup = .blocked identities reason) : reason ∈ u.cleanup.refs := by
    rw [h]
    exact mem_append_right _ (mem_singleton_self reason)
  constructor
  · intro h
    constructor
    · intro a ha
      obtain ⟨b, hb, hab⟩ := exists_of_forall₂_left w.tasks ha
      rw [← hab.brief]
      exact h.briefs b hb
    · intro reference hreference
      apply h.refs
      rcases mem_refs.mp hreference with ⟨a, ha, hmem⟩ | hmem | hmem
      · obtain ⟨b, hb, hab⟩ := exists_of_forall₂_left w.tasks ha
        rcases mem_refs_task' hab hmem with hmem | ⟨identity, hstate, rfl⟩
        · exact mem_refs.mpr (.inl ⟨b, hb, hmem⟩)
        · -- what the task was blocked at is still to be cleaned up
          have hcheck := hs.blockedTasks a ha
          rw [Orchestration.checkBlockedTask, hstate, refuse_eq_ok, not_or, not_not] at hcheck
          exact mem_refs.mpr (.inr (.inl (hother ▸ recoveryRef_mem_otherRefs hcheck.1)))
      · exact mem_refs.mpr (.inr (.inl (hother ▸ hmem)))
      · rcases hs.mem_cleanup_refs hmem with hmem | ⟨identities, reason, hcleanup, rfl⟩
        · exact mem_refs.mpr (.inr (.inl (hother ▸ hmem)))
        · obtain ⟨_, hcleanup⟩ := (hreason _).mpr ⟨identities, hcleanup⟩
          exact mem_refs.mpr (.inr (.inr (hblocked hcleanup)))
  · intro h
    constructor
    · intro b hb
      obtain ⟨a, ha, hab⟩ := exists_of_forall₂_right w.tasks hb
      rw [hab.brief]
      exact h.briefs a ha
    · intro reference hreference
      apply h.refs
      rcases mem_refs.mp hreference with ⟨b, hb, hmem⟩ | hmem | hmem
      · obtain ⟨a, ha, hab⟩ := exists_of_forall₂_right w.tasks hb
        exact mem_refs.mpr (.inl ⟨a, ha, mem_refs_task hab hmem⟩)
      · exact mem_refs.mpr (.inr (.inl (hother ▸ hmem)))
      · rcases ht.mem_cleanup_refs hmem with hmem | ⟨identities, reason, hcleanup, rfl⟩
        · exact mem_refs.mpr (.inr (.inl (hother ▸ hmem)))
        · obtain ⟨_, hcleanup⟩ := (hreason _).mp ⟨identities, hcleanup⟩
          exact mem_refs.mpr (.inr (.inr (hblocked hcleanup)))

/-! ## The next projection -/

theorem Winds.isBlocked_imp (w : Winds s t) (h : t.isBlocked = true) : s.isBlocked = true := by
  rw [RunProjection.isBlocked, Bool.or_eq_true] at h ⊢
  rcases h with h | h
  · left
    rwa [w.anyBlocked] at h
  · right
    obtain ⟨b, hb, hsome⟩ := any_eq_true.mp h
    obtain ⟨a, ha, hab⟩ := exists_of_forall₂_right w.tasks hb
    refine any_eq_true.mpr ⟨a, ha, ?_⟩
    cases hstate : b.state with
    | cleanupBlocked identity =>
      rw [cleanup? hab hstate]
      rfl
    | _ => rw [hstate] at hsome; cases hsome

theorem Shaped.isBlocked_eq_false (h : Shaped enc s)
    (hopen : s.required = [] ∨ ∀ identities reason, s.cleanup ≠ .blocked identities reason) :
    s.isBlocked = false := by
  have hsummary := h.summary
  unfold checkCleanupSummary at hsummary
  rcases hcleanup : s.cleanup with _ | identities | ⟨identities, reason⟩
  · rw [hcleanup] at hsummary
    simpa using (not_or.mp (refuse_eq_ok.mp hsummary)).2
  · rw [hcleanup] at hsummary
    simpa using (not_or.mp (unless_eq_ok.mp hsummary).1).2
  · rw [hcleanup] at hsummary
    rcases hopen with hrequired | hopen
    · exact absurd (.inl hrequired) (unless_eq_ok.mp hsummary).1
    · exact absurd hcleanup (hopen identities reason)

theorem Shaped.required_ne_nil (h : Shaped enc s) {identities : List CleanupIdentity}
    {reason : ObjectRef} (hcleanup : s.cleanup = .blocked identities reason) : s.required ≠ [] := by
  have hsummary := h.summary
  unfold checkCleanupSummary at hsummary
  rw [hcleanup] at hsummary
  exact (not_or.mp (unless_eq_ok.mp hsummary).1).1

/-- The summary of the cleanup is right after cancellations exactly if a run that was blocked still is. -/
theorem Winds.checkCleanupSummary_refresh (w : Winds s t) (h : Shaped enc s)
    (hcleanup : t.cleanup = s.cleanup) : checkCleanupSummary (refreshCleanup t) = .ok () ↔
      ∀ identities reason, s.cleanup = .blocked identities reason → t.isBlocked = true := by
  have hids : (t.attempts.map fun reservation => reservation.identity.attempt).Nodup := by
    rw [map_eq_of_forall₂ (fun _ _ h => congrArg ExecutionIdentity.attempt h.identity) w.attempts]
    exact h.attemptIds
  have hopen (hs : s.isBlocked = false) : t.isBlocked = false := by
    rw [← Bool.not_eq_true] at hs ⊢
    exact fun ht => hs (w.isBlocked_imp ht)
  rw [Orchestration.checkCleanupSummary_refresh hids, hcleanup, w.required]
  · constructor
    · intro hall identities reason hblocked
      exact hall (h.required_ne_nil hblocked) identities reason hblocked
    · exact fun hall _ => hall
  · intro hrequired
    exact hopen (h.isBlocked_eq_false (.inl (w.required ▸ hrequired)))
  · intro hblocked
    exact hopen (h.isBlocked_eq_false (.inr (hcleanup ▸ hblocked)))

/-- Which reason the cleanup gives, if any, is kept when it is computed anew. -/
theorem Winds.reason_iff (w : Winds s t) (h : Shaped enc s) (hcleanup : t.cleanup = s.cleanup)
    (reason : ObjectRef) : (∃ identities, (refreshCleanup t).cleanup = .blocked identities reason) ↔
      ∃ identities, s.cleanup = .blocked identities reason := by
  unfold refreshCleanup
  rw [hcleanup, w.required]
  constructor
  · rintro ⟨identities, hblocked⟩
    split at hblocked
    · cases hblocked
    · cases hs : s.cleanup with
      | blocked before reason' =>
        rw [hs] at hblocked
        cases hblocked
        exact ⟨before, rfl⟩
      | _ => rw [hs] at hblocked; cases hblocked
  · rintro ⟨identities, hblocked⟩
    rw [if_neg (h.required_ne_nil hblocked), hblocked]
    exact ⟨s.required, rfl⟩

/-! ## Proposals that only a limit can refuse -/

theorem ends_encoded (bytes limit : ℕ) : Ends (· = capacity) (fun _ => True) (encoded bytes limit) := by
  unfold encoded refuse
  split
  · exact rfl
  · exact trivial

theorem ends_checkedSucc (n : ℕ) : Ends (· = capacity) (fun next => next = n + 1 ∧ next < 2 ^ 64) (checkedSucc n) := by
  unfold checkedSucc
  split
  · next h => exact ⟨rfl, h⟩
  · exact rfl

theorem ends_checkBrief {brief : TaskBrief} (hcheckpoint : brief.scope.base.checkpoint.recordKind = .branchCheckpoint)
    (hinputs : brief.inputs.recordKind = .inputManifest) :
    Ends (· = capacity) (fun _ => True) (checkBrief enc brief) := by
  refine (ends_encoded _ _).bind fun _ _ => ?_
  refine .of_limit rfl fun _ => ?_
  refine .of_limit rfl fun _ => ?_
  apply ends_check
  rintro (h | h)
  · exact h hcheckpoint
  · exact h hinputs

theorem ends_validateProjection (hcounts : checkCounts s = .ok ()) (h : Shaped enc s) :
    Ends (· = capacity) (fun _ => validateProjection enc s = .ok ()) (validateProjection enc s) := by
  cases hvalid : validateProjection enc s with
  | ok u => exact rfl
  | error error =>
    have hends : Ends (· = capacity) (fun _ => True) (validateProjection enc s) := by
      rw [validateProjection, hcounts]
      exact (ends_encoded _ _).bind fun _ _ => .of_ok (checkShape_eq_ok.mpr h) trivial
    rw [hvalid] at hends
    exact hends

theorem ends_projectionRefs (hvalid : validateProjection enc s = .ok ()) (h : Referenced s) :
    Ends (· = capacity) (· = s.refs) (projectionRefs enc s) := by
  rw [projectionRefs, hvalid]
  have hbriefs : Ends (· = capacity) (fun _ => True)
      (all (fun task => checkBrief enc task.brief) s.tasks) :=
    ends_all fun task htask => ends_checkBrief (h.briefs task htask).1 (h.briefs task htask).2
  exact hbriefs.bind fun _ _ => .of_ok rfl rfl

theorem ends_snapshotDependencies (hvalid : validateProjection enc s = .ok ()) (h : Referenced s) :
    Ends (· = capacity) (· = s.refs) (snapshotDependencies enc s) := by
  refine (ends_encoded _ _).bind fun _ _ => ?_
  refine (ends_projectionRefs hvalid h).bind fun refs hrefs => ?_
  rw [hrefs, all_eq_ok.mpr h.refs]
  exact .of_ok rfl rfl

variable {project : ProjectId} {generation : ℕ} {envelope : OrchestrationEnvelope}
  {previous : Option ObjectRef}

/-- The envelope is sent to this run, with the segment before as the run's sequence asks. -/
structure Addressed (enc : Encoding) (s : RunProjection) (project : ProjectId) (generation : ℕ)
    (envelope : OrchestrationEnvelope) (previous : Option ObjectRef) : Prop where
  valid : envelope.validate enc = .ok ()
  project : envelope.project = project
  generation : envelope.expectedGeneration = generation
  grant : validateReference envelope.authority.grantRef = .ok ()
  segment : ∀ reference ∈ previous, reference.recordKind = .runIndex ∧ validateReference reference = .ok ()
  follows : 0 < s.sequence → previous ≠ none

theorem ends_segmentDependencies {event : OrchestrationEvent} (hprevious : ∀ reference ∈ previous,
      reference.recordKind = .runIndex ∧ validateReference reference = .ok ())
    (hfollows : 1 < s.sequence → previous ≠ none) (hpositive : 0 < s.sequence)
    (hbound : s.sequence < 2 ^ 64) (hevent : event.sequence = s.sequence ∧ event.projection = s)
    (hvalid : validateProjection enc s = .ok ()) (h : Referenced s) :
    Ends (· = capacity) (· = previous.toList ++ (s.refs ++ []))
      (segmentDependencies enc ⟨s.run, s.sequence, previous, [event]⟩) := by
  refine (ends_encoded _ _).bind fun _ _ => ?_
  refine .of_check ?_ ?_
  · rintro (hzero | ⟨hlater, hnone⟩)
    · exact Nat.ne_of_gt hpositive hzero
    · exact hfollows hlater hnone
  refine .of_limit rfl fun _ => ?_
  refine .of_check (fun ⟨reference, hmem, hkind⟩ => hkind (hprevious reference hmem).1) ?_
  have hevents : Ends (· = capacity) (· = s.refs ++ [])
      (eventRefs enc s.run s.sequence [event]) := by
    refine .of_check ?_ ?_
    · rintro (h | h | h | h)
      · exact absurd h (not_le.mpr hbound)
      · exact h hevent.1
      · exact h (hevent.1.trans (congrArg RunProjection.sequence hevent.2).symm)
      · exact h (congrArg RunProjection.run hevent.2)
    · rw [hevent.2]
      exact (ends_projectionRefs hvalid h).bind fun refs hrefs => .of_ok rfl (by rw [hrefs])
  refine hevents.bind fun refs hrefs => ?_
  have hreferences : ∀ reference ∈ previous.toList ++ refs, validateReference reference = .ok () := by
    intro reference hmem
    rw [hrefs] at hmem
    rcases mem_append.mp hmem with hmem | hmem
    · exact (hprevious reference (Option.mem_toList.mp hmem)).2
    · exact h.refs reference (by simpa using hmem)
  simp only [all_eq_ok.mpr hreferences, ok_bind]
  exact .of_ok rfl (by rw [hrefs])

/-- A projection that is checked and refers to what it should is proposed, but for the limits. -/
theorem ends_propose (a : Addressed enc s project generation envelope previous) (decision : CommandDecision)
    (hvalid : ∀ sequence, checkCounts { s with sequence := sequence } = .ok () ∧
      Shaped enc { s with sequence := sequence } ∧ Referenced { s with sequence := sequence }) :
    Ends (· = capacity) (fun update => update.decision = decision ∧ validateProjection enc update.projection = .ok ())
      (propose enc project generation envelope previous s decision) := by
  refine (ends_checkedSucc _).bind fun sequence hsequence => ?_
  obtain ⟨hcounts, hshaped, hrefs⟩ := hvalid sequence
  generalize hnext : { s with sequence := sequence } = next at hcounts hshaped hrefs
  have hnextSequence : next.sequence = sequence := by rw [← hnext]
  simp only [ValidatedRunUpdate.new]
  rw [a.valid]
  refine .of_check (not_not.mpr a.project) ?_
  refine .of_check (not_not.mpr a.generation) ?_
  refine (ends_validateProjection hcounts hshaped).bind fun _ hok => ?_
  refine (ends_snapshotDependencies hok hrefs).bind fun snapshot hsnapshot => ?_
  have hsegment := @ends_segmentDependencies enc next previous ⟨envelope.id, next.sequence, next⟩
    a.segment (fun h => a.follows (by omega)) (by omega) (by omega) ⟨rfl, rfl⟩ hok hrefs
  rw [hnextSequence] at hsegment
  refine hsegment.bind fun events hevents => ?_
  refine .of_check (not_not.mpr ⟨rfl, ⟨envelope.id, sequence, next⟩, rfl, rfl, rfl⟩) ?_
  have hdependencies : ∀ reference ∈ snapshot ++ events ++ [envelope.authority.grantRef],
      validateReference reference = .ok () := by
    intro reference hmem
    rw [hsnapshot, hevents, append_nil] at hmem
    simp only [mem_append, Option.mem_toList, mem_singleton] at hmem
    rcases hmem with (hmem | hmem | hmem) | rfl
    · exact hrefs.refs reference hmem
    · exact (a.segment reference hmem).2
    · exact hrefs.refs reference hmem
    · exact a.grant
  rw [all_eq_ok.mpr hdependencies]
  refine (ends_encoded _ _).bind fun _ _ => ?_
  exact (ends_checkedSucc _).bind fun _ _ => .of_ok rfl ⟨rfl, hok⟩

/-! ## Commands that end work -/

/-- The command stops the run at its current control revision, or cancels one of its tasks. -/
def EndsWork (s : RunProjection) : OrchestrationCommand → Prop
  | .controlRun intent => intent.runId = s.run ∧
      intent.expectedControlRevision = s.controlRevision ∧ intent.action = .stop
  | .cancelTask id => id ∈ s.taskIds
  | _ => False

/-- Something is blocked in its cleanup that the command does not cancel: an attempt, or a task that is
not at or below the one that is cancelled. -/
def StaysBlocked (s : RunProjection) : OrchestrationCommand → Prop
  | .cancelTask id => (∃ reservation ∈ s.attempts, reservation.state.isBlocked = true) ∨
      ∃ task ∈ s.tasks, ¬ Below s id task.id ∧ task.state.cleanup?.isSome = true
  | _ => ∃ reservation ∈ s.attempts, reservation.state.isBlocked = true

theorem isBlocked_of_cancel {id : TaskId} (h : cancel s id = .ok t) :
    t.isBlocked = true ↔ StaysBlocked s (.cancelTask id) := by
  have w := winds_of_cancel h
  obtain ⟨hid, rfl⟩ := cancel_eq_ok.mp h
  rw [RunProjection.isBlocked, w.anyBlocked, Bool.or_eq_true, any_eq_true, any_eq_true]
  refine or_congr Iff.rfl ⟨?_, ?_⟩
  · rintro ⟨_, hmem, hblocked⟩
    obtain ⟨task, htask, rfl⟩ := mem_map.mp hmem
    by_cases hcancel : task.id ∈ subtree s id ∧ task.state.isDone = false
    · rw [if_pos hcancel, TaskRecord.cancel] at hblocked
      split at hblocked
      · cases hblocked
      · cases hblocked
    · rw [if_neg hcancel] at hblocked
      refine ⟨task, htask, fun hbelow => hcancel ⟨(mem_subtree hid).mpr hbelow, ?_⟩, hblocked⟩
      cases hstate : task.state with
      | cleanupBlocked identity => rfl
      | _ => rw [hstate] at hblocked; cases hblocked
  · rintro ⟨task, htask, hother, hblocked⟩
    refine ⟨_, mem_map.mpr ⟨task, htask, rfl⟩, ?_⟩
    rw [if_neg fun hcancel => hother ((mem_subtree hid).mp hcancel.1)]
    exact hblocked

/-- A command that ends work is decided on and carried out. -/
theorem exists_ended (h : Shaped enc s) (hpending : s.outcome = .pending)
    (hphase : s.phase ≠ .finished) (hcommand : EndsWork s envelope.command) :
    ∃ t transition, decideNext s envelope.command = .ok transition ∧ transition.decision = .applied ∧
      (∀ live, transit enc s envelope live transition = .ok (some t)) ∧ Winds s t ∧
      t.wait = s.wait ∧ t.cleanup = s.cleanup ∧ t.outcome ≠ .ready ∧
      t.outcome.refs = s.outcome.refs ∧ t.sequence = s.sequence ∧
      (t.isBlocked = true ↔ StaysBlocked s envelope.command) := by
  rcases hsent : envelope.command with _ | _ | _ | _ | _ | _ | id | _ | intent | _ | _ | _ | _ | _ |
    _ | _ | _ | _ | _ | _
  case controlRun =>
    rw [hsent] at hcommand
    obtain ⟨hrun, hrevision, haction⟩ := hcommand
    obtain ⟨t, hstop, w, hsequence, houtcome, hwait, hcleanup, htasks, _⟩ := exists_stop h
    refine ⟨t, .control .stop, ?_, rfl, fun _ => ?_, w, hwait, hcleanup, ?_, ?_, hsequence, ?_⟩
    · have heligible : eligible s .stop = true := by simp [eligible, hpending, hphase]
      simp [decideNext, decideControl, hrun, hrevision, haction, heligible, refuse]
    · simp [transit, control, hstop]
    · rw [houtcome]
      exact RunOutcome.noConfusion
    · rw [houtcome, hpending]
      rfl
    · rw [RunProjection.isBlocked, w.anyBlocked, Bool.or_eq_true, any_eq_true, any_eq_true]
      refine ⟨?_, .inl⟩
      rintro (hblocked | ⟨task, htask, hblocked⟩)
      · exact hblocked
      · have hover := htasks task htask
        cases hstate : task.state with
        | cleanupBlocked identity => rw [hstate] at hover; cases hover
        | _ => rw [hstate] at hblocked; cases hblocked
  case cancelTask =>
    rw [hsent] at hcommand
    have hcancel := cancel_eq_ok.mpr ⟨hcommand, rfl⟩
    generalize settleGenerations (cancelTasks s (subtree s id)) = t at hcancel
    have w := winds_of_cancel hcancel
    have f := framed_of_cancel hcancel
    refine ⟨t, .lifecycle, ?_, rfl, fun _ => ?_, w, f.wait, f.cleanup, ?_, ?_, f.sequence, ?_⟩
    · simp [decideNext, hpending]
    · simp only [transit, lifecycle, applyLifecycle, hsent, hcancel]
      rfl
    · rw [f.outcome, hpending]
      exact RunOutcome.noConfusion
    · rw [f.outcome]
    · exact isBlocked_of_cancel hcancel
  all_goals
    rw [hsent] at hcommand
    cases hcommand

/-- Stopping a run and cancelling a task are applied, unless a limit refuses them, exactly if a run that
is blocked in its cleanup stays so and the projection refers to what a published one does. -/
theorem ending_is_applied_iff (hvalid : validateProjection enc s = .ok ())
    (hpending : s.outcome = .pending) (hphase : s.phase ≠ .finished)
    (a : Addressed enc s project generation envelope previous)
    (hcommand : EndsWork s envelope.command)
    (hroom : prepare enc (some s) project generation envelope previous ≠ .error .capacity) :
    (∃ update, prepare enc (some s) project generation envelope previous = .ok update ∧
      update.decision = .applied ∧ validateProjection enc update.projection = .ok ()) ↔
      (∀ identities reason, s.cleanup = .blocked identities reason →
        StaysBlocked s envelope.command) ∧ Referenced s := by
  obtain ⟨hcounts, _, hshaped⟩ := validateProjection_eq_ok.mp hvalid
  obtain ⟨t, transition, hdecide, happlied, htransit, w, hwait, hcleanup, hready, hrefs, hsequence,
    hblocked⟩ := exists_ended hshaped hpending hphase hcommand
  let revised : RunProjection := { t with controlRevision := envelope.identity enc "control-revision" }
  have hnext : nextProjection enc s envelope none transition =
      .ok (refreshWait (refreshCleanup revised)) := by
    rw [nextProjection, htransit]
    rfl
  obtain ⟨wait, hrefresh⟩ := exists_refreshWait (refreshCleanup revised)
  have hwaitRefs : wait.refs = s.wait.refs := by
    have hrefs := refreshWait_refs (refreshCleanup revised)
    rw [hrefresh] at hrefs
    exact hrefs.trans (congrArg RunWait.refs hwait)
  have hbad : ∀ children ∈ wait.children?, badChildren t children = false := by
    have hbad := @badChildren_refreshWait (refreshCleanup revised)
    rw [hrefresh] at hbad
    refine hbad ?_ ?_
    · have hlength := w.length_tasks
      simp only [checkCounts, bind_eq_ok, refuse_eq_ok] at hcounts
      obtain ⟨⟨⟩, hcounts, _⟩ := hcounts
      exact hlength.trans_le (not_lt.mp fun h => hcounts (.inl h))
    · intro delivery hdelivery
      obtain ⟨before, hbefore, hwinds⟩ := exists_of_forall₂_right w.deliveries hdelivery
      have htask := hshaped.deliveryTasks before hbefore
      rwa [← hwinds.task, ← w.taskIds] at htask
  rw [hrefresh] at hnext
  -- what is proposed: the summaries and the sequence are new, the rest is what the command left
  have wnext (sequence : ℕ) : Winds s { refreshCleanup revised with
      wait := wait
      sequence := sequence } := { w with }
  have hsummary : checkCleanupSummary (refreshCleanup revised) = .ok () ↔
      ∀ identities reason, s.cleanup = .blocked identities reason →
        StaysBlocked s envelope.command := by
    have wrevised : Winds s revised := { w with }
    rw [wrevised.checkCleanupSummary_refresh hshaped hcleanup, ← hblocked]
    rfl
  have hreferenced (sequence : ℕ) (hnext : Shaped enc { refreshCleanup revised with
      wait := wait
      sequence := sequence }) : Referenced { refreshCleanup revised with
        wait := wait
        sequence := sequence } ↔ Referenced s :=
    (wnext sequence).referenced_iff hshaped hnext hrefs hwaitRefs (Winds.reason_iff { w with } hshaped hcleanup)
  constructor
  · rintro ⟨update, hupdate, -, hok⟩
    obtain ⟨transition', next, _, hdecide', hnext', hprojection, _, _, hreferences⟩ := prepareNext_eq_ok hupdate
    obtain rfl := Except.ok.inj (hdecide.symm.trans hdecide')
    obtain rfl := Except.ok.inj (hnext.symm.trans hnext')
    rw [hprojection] at hok hreferences
    have hshape := shaped_of_valid hok
    exact ⟨hsummary.mp hshape.summary, (hreferenced _ hshape).mp hreferences⟩
  · rintro ⟨hstays, hreferences⟩
    have hshape (sequence : ℕ) := (wnext sequence).shaped hshaped (hsummary.mpr hstays) hbad hready
    have hpropose := @ends_propose enc { refreshCleanup revised with wait := wait } project generation
      envelope previous ⟨a.valid, a.project, a.generation, a.grant, a.segment,
        fun h => a.follows (hsequence ▸ h)⟩ .applied fun sequence =>
        ⟨(wnext sequence).checkCounts hcounts, hshape sequence,
          (hreferenced sequence (hshape sequence)).mpr hreferences⟩
    have hprepare : prepare enc (some s) project generation envelope previous =
        propose enc project generation envelope previous { refreshCleanup revised with wait := wait }
          .applied := by
      rw [prepare, prepareWithAttention, prepareNext, a.valid, ok_bind, hvalid, ok_bind, hdecide,
        ok_bind, hnext, ok_bind, happlied]
    rw [hprepare] at hroom ⊢
    exact hpropose.exists_ok hroom

/-! ## A task that is blocked alone -/

/-- An object of the kind. -/
def sampleRef (kind : RecordKind) : ObjectRef :=
  ⟨"0123456789abcdef0123456789abcdef0123456789abcdef0123456789abcdef", 100, kind⟩

/-- Every value is short, and the identities of a command are those of its domains. -/
def sampleEncoding : Encoding where
  scopedBytes := fun _ _ _ _ _ => 600
  digest := fun _ _ _ _ _ => "fedcba9876543210fedcba9876543210fedcba9876543210fedcba9876543210"
  envelopeBytes := fun _ => 700
  identity := fun digest domain => digest ++ domain
  executionBytes := fun _ => 300
  briefBytes := fun _ => 900
  projectionBytes := fun s => 500 + 1000 * s.tasks.length
  snapshotBytes := fun s => 550 + 1000 * s.tasks.length
  segmentBytes := fun segment => 600 + 2000 * segment.events.length
  resultBytes := fun _ => 800
  resultDigest := fun _ => "0123456789abcdef0123456789abcdef0123456789abcdef0123456789abcdef"
  cutBytes := fun _ _ _ references => 4000 + 100 * references.card

def sampleBrief : TaskBrief where
  plan := sampleRef .document
  script := sampleRef .ownedScript
  inputs := sampleRef .inputManifest
  assignment := sampleRef .ownedData
  role := .director
  provider := ⟨"connector", "model", []⟩
  scope :=
    { operations := ∅
      objects := ∅
      fields := ∅
      tracks := ∅
      busSidechainClosure := ∅
      assetRoots := []
      base := ⟨"branch", "head", sampleRef .branchCheckpoint, "hash"⟩
      consentRefs := [] }

/-- What there is to clean up after the one attempt. -/
def sampleCleanup : CleanupIdentity := ⟨"attempt", "owner", "nonce", sampleRef .ownedData⟩

/-- A run whose only task is blocked in the cleanup of its attempt, which is in the given state. -/
def blockedRun (state : AttemptState) : RunProjection where
  run := "run"
  sequence := 1
  controlRevision := "revision"
  phase := .running
  outcome := .pending
  wait := .none
  cleanup := .blocked [sampleCleanup] (sampleRef .ownedData)
  tasks := [⟨"task", none, sampleBrief, .cleanupBlocked sampleCleanup, .new⟩]
  effects := [⟨"effect", "task", "branch", 1, .replaySafe, .pending, sampleRef .ownedData⟩]
  attempts := [⟨⟨1, "project", "run", "task", "attempt", "nonce", "owner"⟩, 2, state,
    sampleRef .ownedData⟩]
  deliveries := []
  requests := []
  results := []
  usage := []

def sampleEnvelope (command : OrchestrationCommand) : OrchestrationEnvelope where
  id := ⟨"issuer", 7⟩
  digest := "fedcba9876543210fedcba9876543210fedcba9876543210fedcba9876543210"
  project := "project"
  expectedGeneration := 21
  authority := ⟨sampleRef .ownedData, 2, none, none⟩
  command := command

/-- The command that stops the run. -/
def sampleStop : OrchestrationCommand := .controlRun ⟨⟨"issuer", 7⟩, "run", "revision", .stop⟩

theorem sample_addressed (state : AttemptState) {command : OrchestrationCommand}
    (h : command = sampleStop) : Addressed sampleEncoding (blockedRun state) "project" 21
      (sampleEnvelope command) (some (sampleRef .runIndex)) := by
  subst h
  refine ⟨by decide +kernel, rfl, rfl, by decide +kernel, ?_, fun _ => Option.some_ne_none _⟩
  rintro _ ⟨⟩
  exact ⟨rfl, by decide +kernel⟩

/-- While the attempt is blocked too, the run is stopped. -/
theorem ending_is_applied_iff_blocked :
    (∃ update, prepare sampleEncoding (some (blockedRun (.cleanupBlocked sampleCleanup))) "project" 21
        (sampleEnvelope sampleStop) (some (sampleRef .runIndex)) = .ok update ∧
      update.decision = .applied ∧
      validateProjection sampleEncoding update.projection = .ok ()) ↔
      (∀ identities reason, (blockedRun (.cleanupBlocked sampleCleanup)).cleanup = .blocked identities reason →
        StaysBlocked (blockedRun (.cleanupBlocked sampleCleanup)) sampleStop) ∧
      Referenced (blockedRun (.cleanupBlocked sampleCleanup)) :=
  ending_is_applied_iff (by decide +kernel) rfl (by decide) (sample_addressed _ rfl)
    ⟨rfl, rfl, rfl⟩ fun h => by
      have hnone : error? (prepare sampleEncoding (some (blockedRun (.cleanupBlocked sampleCleanup))) "project" 21
          (sampleEnvelope sampleStop) (some (sampleRef .runIndex))) = none := by decide +kernel
      rw [h] at hnone
      cases hnone

/-- Not every command that ends work is applied: once the attempt works again, the run cannot be
stopped. -/
theorem ending_is_refused : ¬ ∀ (enc : Encoding) (s : RunProjection) (project : ProjectId)
    (generation : ℕ) (envelope : OrchestrationEnvelope) (previous : Option ObjectRef),
    validateProjection enc s = .ok () → s.outcome = .pending → s.phase ≠ .finished →
    Addressed enc s project generation envelope previous → EndsWork s envelope.command →
    prepare enc (some s) project generation envelope previous ≠ .error .capacity →
    ∃ update, prepare enc (some s) project generation envelope previous = .ok update ∧
      update.decision = .applied ∧ validateProjection enc update.projection = .ok () := by
  intro h
  have hrefused : prepare sampleEncoding (some (blockedRun .executing)) "project" 21
      (sampleEnvelope sampleStop) (some (sampleRef .runIndex)) = .error .invalidState :=
    error?_eq_some.mp (by decide +kernel)
  obtain ⟨update, hupdate, _⟩ := h sampleEncoding (blockedRun .executing) "project" 21
    (sampleEnvelope sampleStop) (some (sampleRef .runIndex)) (by decide +kernel) rfl (by decide)
    (sample_addressed _ rfl) ⟨rfl, rfl, rfl⟩ (by rw [hrefused]; exact fun h => by cases h)
  rw [hrefused] at hupdate
  cases hupdate

end Kinewright.Orchestration
