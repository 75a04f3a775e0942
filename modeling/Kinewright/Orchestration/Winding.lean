import Kinewright.Orchestration.Cancel

/-!
# Cancellations and the checks of a projection

A projection in shape stays in shape when work in it is cancelled, but for the two summaries.
-/

namespace Kinewright.Orchestration

open Fallible Accounting List

variable {enc : Encoding} {s t : RunProjection}

namespace Winds

/-! ## What the records are read for -/

theorem taskIds (w : Winds s t) : t.taskIds = s.taskIds := map_eq_of_forall₂ (fun _ _ h => h.id) w.tasks

theorem parentOf (w : Winds s t) : t.parentOf = s.parentOf := by
  funext id
  have hread (u : RunProjection) : u.parentOf id =
      ((u.tasks.map fun task => (task.id, task.parent)).find? fun entry => entry.1 = id).bind
        Prod.snd := by
    rw [find?_map, Option.bind_map]
    rfl
  have hkeys : (t.tasks.map fun task => (task.id, task.parent)) =
      s.tasks.map fun task => (task.id, task.parent) :=
    map_eq_of_forall₂ (fun _ _ h => by rw [h.id, h.parent]) w.tasks
  rw [hread, hread, hkeys]

theorem length_tasks (w : Winds s t) : t.tasks.length = s.tasks.length := w.tasks.length_eq.symm

section

variable {a b : AttemptReservation}

theorem isRetired (h : a.Winds b) : b.state.isRetired = a.state.isRetired := by
  rcases h.state with h | ⟨hretired, _, h⟩
  · rw [h]
  · rw [h, hretired]
    rfl

theorem isBlocked (h : a.Winds b) : b.state.isBlocked = a.state.isBlocked := by
  rcases h.state with h | ⟨_, hblocked, h⟩
  · rw [h]
  · rw [h, hblocked]
    rfl

theorem cleanupIdentity (h : a.Winds b) : b.cleanupIdentity = a.cleanupIdentity := by
  rw [AttemptReservation.cleanupIdentity, AttemptReservation.cleanupIdentity, h.identity, h.recoveryRef]

end

theorem required (w : Winds s t) : t.required = s.required :=
  map_filter_eq_of_forall₂ (fun _ _ h => by rw [isRetired h]) (fun _ _ h => cleanupIdentity h)
    w.attempts

theorem hasLive (w : Winds s t) (id : TaskId) : t.hasLive id = s.hasLive id :=
  any_eq_of_forall₂ (fun _ _ h => by rw [isRetired h, h.identity]) w.attempts

theorem anyBlocked (w : Winds s t) : (t.attempts.any fun reservation => reservation.state.isBlocked) =
      s.attempts.any fun reservation => reservation.state.isBlocked :=
  any_eq_of_forall₂ (fun _ _ h => isBlocked h) w.attempts

variable {a b : TaskRecord}

/-- What a cancelled task was blocked at is forgotten. -/
theorem cleanup? (h : a.Winds b) {identity : CleanupIdentity}
    (hb : b.state = .cleanupBlocked identity) : a.state = .cleanupBlocked identity := by
  rcases h.state with h | ⟨_, h | h⟩
  · exact h ▸ hb
  all_goals
    rw [h] at hb
    cases hb

theorem reserved (h : a.Winds b) (hb : b.progress.capacity = .reserved) : a.progress.capacity = .reserved := by
  rcases h.progress with h | h
  · rwa [h] at hb
  · rw [h] at hb
    cases hb

/-- A cancellation needs no more slots. -/
theorem dependencySlots (w : Winds s t) : t.dependencySlots ≤ s.dependencySlots := by
  have hlive : t.live.length = s.live.length := by
    have hrequired := congrArg List.length w.required
    rwa [RunProjection.required, RunProjection.required, length_map, length_map] at hrequired
  unfold RunProjection.dependencySlots
  rw [hlive]
  refine Nat.add_le_add_left (length_filter_le_of_forall₂ ?_ w.tasks) _
  intro a b h hb
  simp only [Bool.and_eq_true, decide_eq_true_eq, Bool.not_eq_true', h.id, w.hasLive] at hb ⊢
  exact ⟨reserved h hb.1, hb.2⟩

theorem questions (w : Winds s t) : List.Forall₂ QuestionRecord.Winds s.questions t.questions := by
  unfold RunProjection.questions
  have hrequests := w.requests
  generalize s.requests = before, t.requests = after at hrequests
  induction hrequests with
  | nil => exact .nil
  | @cons a b _ _ h _ ih =>
    cases h with
    | question h => exact .cons h ih
    | same =>
      cases a with
      | question asked => exact .cons (.refl asked) ih
      | approval attention => exact ih
      | secret attention => exact ih

/-! ## The checks -/

theorem checkCounts (w : Winds s t) (h : checkCounts s = .ok ()) : Orchestration.checkCounts t = .ok () := by
  have hslots := w.dependencySlots
  simp only [Orchestration.checkCounts, bind_eq_ok, refuse_eq_ok] at h ⊢
  obtain ⟨⟨⟩, hcounts, hs⟩ := h
  refine ⟨(), ?_, by omega⟩
  rwa [w.length_tasks, ← w.attempts.length_eq, ← w.effects.length_eq, ← w.deliveries.length_eq,
    ← w.requests.length_eq, w.results, w.usage]

theorem checkBlockedAttempt {a b : AttemptReservation} (h : a.Winds b)
    (ha : checkBlockedAttempt a = .ok ()) : Orchestration.checkBlockedAttempt b = .ok () := by
  rcases h.state with hstate | ⟨_, _, hstate⟩
  · rw [Orchestration.checkBlockedAttempt, hstate, cleanupIdentity h]
    exact ha
  · rw [Orchestration.checkBlockedAttempt, hstate]

theorem checkBlockedTask (w : Winds s t) (h : a.Winds b) (ha : checkBlockedTask s a = .ok ()) :
    Orchestration.checkBlockedTask t b = .ok () := by
  rcases hb : b.state with _ | _ | _ | _ | _ | _ | _ | identity | _ | _
  case cleanupBlocked =>
    rw [Orchestration.checkBlockedTask, cleanup? h hb, refuse_eq_ok] at ha
    rw [Orchestration.checkBlockedTask, hb, refuse_eq_ok, w.required]
    push Not at ha ⊢
    obtain ⟨hrequired, reservation, hmem, hattempt, htask⟩ := ha
    obtain ⟨other, hother, hr⟩ := exists_of_forall₂_left w.attempts hmem
    exact ⟨hrequired, other, hother, by rw [hr.identity, hattempt], by rw [hr.identity, htask, h.id]⟩
  all_goals rw [Orchestration.checkBlockedTask, hb]

theorem ancestorsEnd (w : Winds s t) (task : TaskId) (fuel : ℕ) (ancestors : List TaskId) (parent : Option TaskId) :
    ancestorsEnd t task fuel ancestors parent = Orchestration.ancestorsEnd s task fuel ancestors
      parent := by
  induction fuel generalizing ancestors parent with
  | zero =>
    cases parent with
    | none => rfl
    | some id => rfl
  | succ fuel ih =>
    cases parent with
    | none => rfl
    | some id => rw [Orchestration.ancestorsEnd, Orchestration.ancestorsEnd, ih, w.parentOf]

theorem checkTask (w : Winds s t) (h : a.Winds b) (ha : checkTask s a = .ok ()) :
    Orchestration.checkTask t b = .ok () := by
  simp only [Orchestration.checkTask, bind_eq_ok, refuse_eq_ok, w.ancestorsEnd, w.length_tasks] at ha ⊢
  obtain ⟨⟨⟩, hbacked, ⟨⟩, hturn, ⟨⟩, hprogress, hancestors⟩ := ha
  have hpart : b.progress.turnEnded = a.progress.turnEnded ∧
      b.progress.expired = a.progress.expired ∧ b.progress.turn = a.progress.turn ∧
      b.progress.background = a.progress.background ∧ b.progress.feedback = a.progress.feedback ∧
      b.progress.decisions = a.progress.decisions := by
    rcases h.progress with h | h
    all_goals simp [h]
  obtain ⟨hended, hexpired, hturn', hbackground, hfeedback, hdecisions⟩ := hpart
  refine ⟨(), ?_, (), ?_, (), ?_, ?_⟩
  · rintro ⟨id, hid, hnone⟩
    have hid' : id ∈ a.progress.capacity.backed? := by
      rcases h.progress with h | h
      · rwa [h] at hid
      · rw [h] at hid
        cases hid
    refine hbacked ⟨id, hid', fun ⟨reservation, hmem, htask, hattempt⟩ => hnone ?_⟩
    obtain ⟨other, hother, hr⟩ := exists_of_forall₂_left w.attempts hmem
    exact ⟨other, hother, by rw [hr.identity, htask, h.id], by rw [hr.identity, hattempt]⟩
  · rwa [hexpired, hended]
  · rwa [hturn', h.id, h.brief, hbackground, hfeedback, hdecisions]
  · rwa [h.id, h.parent]

theorem badChildren (w : Winds s t) (children : List TaskId) :
    badChildren t children = Orchestration.badChildren s children := by
  rw [Orchestration.badChildren, Orchestration.badChildren, w.taskIds]

/-- A task that waits for children waited for them before. -/
theorem children? (h : a.Winds b) {children : List TaskId} (hb : children ∈ b.state.children?) :
    children ∈ a.state.children? := by
  rcases h.state with h | ⟨_, h | h⟩
  · rwa [h] at hb
  all_goals
    rw [h] at hb
    cases hb

/-- The checks hold after cancellations, if the two summaries are right and the run is not ready. -/
theorem shaped (w : Winds s t) (h : Shaped enc s) (hsummary : checkCleanupSummary t = .ok ())
    (hwait : ∀ children ∈ t.wait.children?, Orchestration.badChildren t children = false)
    (hready : t.outcome ≠ .ready) : Shaped enc t where
  attemptIds := by
    rw [map_eq_of_forall₂ (fun _ _ h => congrArg ExecutionIdentity.attempt h.identity) w.attempts]
    exact h.attemptIds
  blockedAttempts := by
    intro b hb
    obtain ⟨a, ha, hab⟩ := exists_of_forall₂_right w.attempts hb
    exact checkBlockedAttempt hab (h.blockedAttempts a ha)
  blockedTasks := by
    intro b hb
    obtain ⟨a, ha, hab⟩ := exists_of_forall₂_right w.tasks hb
    exact w.checkBlockedTask hab (h.blockedTasks a ha)
  summary := hsummary
  taskIds := by
    rw [w.taskIds]
    exact h.taskIds
  parents := by
    intro b hb parent hparent
    obtain ⟨a, ha, hab⟩ := exists_of_forall₂_right w.tasks hb
    rw [w.taskIds]
    exact h.parents a ha parent (hab.parent ▸ hparent)
  effectTasks := by
    intro b hb
    obtain ⟨a, ha, hab⟩ := exists_of_forall₂_right w.effects hb
    rw [w.taskIds, hab.task]
    exact h.effectTasks a ha
  deliveryTasks := by
    intro b hb
    obtain ⟨a, ha, hab⟩ := exists_of_forall₂_right w.deliveries hb
    rw [w.taskIds, hab.task]
    exact h.deliveryTasks a ha
  tasks := by
    intro b hb
    obtain ⟨a, ha, hab⟩ := exists_of_forall₂_right w.tasks hb
    exact w.checkTask hab (h.tasks a ha)
  questionIds := by
    rw [map_eq_of_forall₂ (fun _ _ h => h.id) w.questions]
    exact h.questionIds
  questionTasks := by
    intro b hb
    obtain ⟨a, ha, hab⟩ := exists_of_forall₂_right w.questions hb
    rw [w.taskIds, hab.task, hab.origin]
    exact h.questionTasks a ha
  attempts := by
    intro b hb
    obtain ⟨a, ha, hab⟩ := exists_of_forall₂_right w.attempts hb
    have hcheck := h.attempts a ha
    rwa [checkAttempt, ← hab.identity, ← w.run, ← w.taskIds] at hcheck
  effectIds := by
    rw [map_eq_of_forall₂ (fun _ _ h => h.id) w.effects]
    exact h.effectIds
  places := by
    have hplaces : (t.effects.map fun effect => (effect.lane, effect.order)) =
        s.effects.map fun effect => (effect.lane, effect.order) :=
      map_eq_of_forall₂ (fun _ _ h => by rw [h.lane, h.order]) w.effects
    rw [hplaces]
    exact h.places
  deliveryIds := by
    rw [map_eq_of_forall₂ (fun _ _ h => h.id) w.deliveries]
    exact h.deliveryIds
  waits := by
    rw [checkWaits, refuse_eq_ok]
    rintro (⟨children, hchildren, hbad⟩ | ⟨b, hb, children, hchildren, hbad⟩)
    · rw [hwait children hchildren] at hbad
      cases hbad
    · obtain ⟨a, ha, hab⟩ := exists_of_forall₂_right w.tasks hb
      have hwaits := h.waits
      rw [checkWaits, refuse_eq_ok] at hwaits
      exact hwaits (.inr ⟨a, ha, children, children? hab hchildren, w.badChildren children ▸ hbad⟩)
  ready := by
    rw [checkReady, refuse_eq_ok]
    exact fun h => hready h.1

/-! ## The references -/

theorem mem_refs_task (h : a.Winds b) {reference : ObjectRef} (hb : reference ∈ b.refs) : reference ∈ a.refs := by
  have hprogress : b.progress.feedback = a.progress.feedback ∧
      b.progress.decisions = a.progress.decisions := by
    rcases h.progress with h | h
    all_goals simp [h]
  rw [TaskRecord.refs, h.brief, hprogress.1, hprogress.2] at hb
  rcases h.state with hstate | ⟨_, hstate | hstate⟩
  · rwa [hstate] at hb
  all_goals
    rw [hstate, append_nil] at hb
    exact mem_append_left _ hb

/-- A task that is cancelled loses no reference but to what it was blocked at. -/
theorem mem_refs_task' (h : a.Winds b) {reference : ObjectRef} (ha : reference ∈ a.refs) : reference ∈ b.refs ∨
      ∃ identity, a.state = .cleanupBlocked identity ∧ reference = identity.recoveryRef := by
  have hprogress : b.progress.feedback = a.progress.feedback ∧
      b.progress.decisions = a.progress.decisions := by
    rcases h.progress with h | h
    all_goals simp [h]
  rcases h.state with hstate | ⟨hopen, _⟩
  · left
    rwa [TaskRecord.refs, h.brief, hprogress.1, hprogress.2, hstate]
  · rcases mem_append.mp ha with ha | ha
    · left
      rw [TaskRecord.refs, h.brief, hprogress.1, hprogress.2]
      exact mem_append_left _ ha
    · rcases hstate : a.state with _ | _ | _ | _ | _ | _ | _ | identity | result | _
      case cleanupBlocked =>
        rw [hstate] at ha
        exact .inr ⟨identity, rfl, mem_singleton.mp ha⟩
      case terminal =>
        rw [hstate] at hopen
        cases hopen
      all_goals
        rw [hstate] at ha
        cases ha

theorem refs_attempt {a b : AttemptReservation} (h : a.Winds b) : b.refs = a.refs := by
  rw [AttemptReservation.refs, AttemptReservation.refs, h.recoveryRef]
  rcases h.state with hstate | ⟨_, hblocked, hstate⟩
  · rw [hstate]
  · rw [hstate]
    rcases ha : a.state with _ | _ | _ | _ | _ | _ | identity | _
    case cleanupBlocked =>
      rw [ha] at hblocked
      cases hblocked
    all_goals rfl

theorem refs_request {a b : RuntimeRequest} (h : a.Winds b) : b.refs = a.refs := by
  cases h with
  | same => rfl
  | @question a b h =>
    rw [RuntimeRequest.refs, RuntimeRequest.refs, h.prompt]
    rcases h.status with hstatus | ⟨hpending, hstatus⟩
    · rw [hstatus]
    · rw [hstatus, hpending]

end Winds

end Kinewright.Orchestration
