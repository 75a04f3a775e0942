import Kinewright.Orchestration.Winding

/-!
# Stopping a run

Every task of a projection in shape is below a task without a parent, so a run that is stopped has no task
left that works.
-/

namespace Kinewright.Orchestration

open Fallible Accounting List

variable {enc : Encoding} {s t : RunProjection}

/-! ## Roots -/

variable {id : TaskId}

/-- A walk over the ancestors that ends, ends at a root. -/
theorem below_root_of_ancestorsEnd (h : Shaped enc s) {task : TaskId} {fuel : ℕ}
    {ancestors : List TaskId} (hid : id ∈ s.taskIds)
    (hends : ancestorsEnd s task fuel ancestors (some id) = true) :
    ∃ root ∈ roots s, Below s root id := by
  induction fuel generalizing ancestors id with
  | zero => cases hends
  | succ fuel ih =>
    obtain ⟨found, hfound, rfl⟩ := mem_taskIds.mp hid
    rw [ancestorsEnd] at hends
    split at hends
    · cases hends
    · rw [h.parentOf_id hfound] at hends
      rcases hparent : found.parent with _ | parent
      · refine ⟨found.id, ?_, .self⟩
        exact mem_map.mpr ⟨found, mem_filter.mpr ⟨hfound, by simp [hparent]⟩, rfl⟩
      · rw [hparent] at hends
        obtain ⟨root, hroot, hbelow⟩ := ih (h.parents found hfound parent hparent) hends
        exact ⟨root, hroot, .child hfound hparent hbelow⟩

theorem exists_below_root (h : Shaped enc s) {task : TaskRecord} (htask : task ∈ s.tasks) :
    ∃ root ∈ roots s, Below s root task.id := by
  have hcheck := h.tasks task htask
  simp only [checkTask, bind_eq_ok, refuse_eq_ok, Bool.not_eq_false] at hcheck
  obtain ⟨⟨⟩, _, ⟨⟩, _, ⟨⟩, _, hends⟩ := hcheck
  rcases hparent : task.parent with _ | parent
  · refine ⟨task.id, ?_, .self⟩
    exact mem_map.mpr ⟨task, mem_filter.mpr ⟨htask, by simp [hparent]⟩, rfl⟩
  · rw [hparent] at hends
    obtain ⟨root, hroot, hbelow⟩ := below_root_of_ancestorsEnd h (h.parents task htask parent hparent) hends
    exact ⟨root, hroot, .child htask hparent hbelow⟩

theorem mem_taskIds_of_mem_roots (h : id ∈ roots s) : id ∈ s.taskIds := by
  obtain ⟨task, htask, rfl⟩ := mem_map.mp h
  exact mem_taskIds.mpr ⟨task, (mem_filter.mp htask).1, rfl⟩

theorem Winds.below (w : Winds s t) {other : TaskId} (h : Below s id other) : Below t id other := by
  induction h with
  | self => exact .self
  | child htask hparent _ ih =>
    obtain ⟨task, htask', hwinds⟩ := exists_of_forall₂_left w.tasks htask
    rw [← hwinds.id]
    exact .child htask' (hwinds.parent.trans hparent) ih

/-! ## One cancellation -/

/-- What a cancellation leaves alone beside the records. -/
structure Framed (s t : RunProjection) : Prop where
  sequence : t.sequence = s.sequence
  controlRevision : t.controlRevision = s.controlRevision
  phase : t.phase = s.phase
  outcome : t.outcome = s.outcome
  wait : t.wait = s.wait
  cleanup : t.cleanup = s.cleanup

theorem Framed.refl (s : RunProjection) : Framed s s := ⟨rfl, rfl, rfl, rfl, rfl, rfl⟩

theorem Framed.trans {u : RunProjection} (hst : Framed s t) (htu : Framed t u) : Framed s u where
  sequence := htu.sequence.trans hst.sequence
  controlRevision := htu.controlRevision.trans hst.controlRevision
  phase := htu.phase.trans hst.phase
  outcome := htu.outcome.trans hst.outcome
  wait := htu.wait.trans hst.wait
  cleanup := htu.cleanup.trans hst.cleanup

theorem framed_of_cancel (h : cancel s id = .ok t) : Framed s t := by
  obtain ⟨_, rfl⟩ := cancel_eq_ok.mp h
  exact ⟨rfl, rfl, rfl, rfl, rfl, rfl⟩

theorem TaskRecord.Winds.isCancelledOrDone {a b : TaskRecord} (h : a.Winds b)
    (ha : a.state.isCancelledOrDone = true) : b.state.isCancelledOrDone = true := by
  rcases h.state with h | ⟨_, h | h⟩
  · rwa [h]
  · rw [h]
    rfl
  · rw [h]
    rfl

theorem DeliveryRecord.Winds.isFinished {a b : DeliveryRecord} (h : a.Winds b)
    (ha : a.state.isFinished = true) : b.state.isFinished = true := by
  rcases h.state with h | ⟨_, h⟩
  · rwa [h]
  · rw [h]
    rfl

/-- Everything at and below the task is cancelled or has ended. -/
theorem isCancelledOrDone_of_cancel (h : cancel s id = .ok t) {task : TaskRecord}
    (htask : task ∈ t.tasks) (hbelow : Below s id task.id) :
    task.state.isCancelledOrDone = true := by
  obtain ⟨hid, rfl⟩ := cancel_eq_ok.mp h
  obtain ⟨before, _, rfl⟩ := mem_map.mp htask
  by_cases hcancel : before.id ∈ subtree s id ∧ before.state.isDone = false
  · rw [if_pos hcancel, TaskRecord.cancel]
    split
    · rfl
    · rfl
  · rw [if_neg hcancel] at hbelow ⊢
    have hdone : before.state.isDone = true := by
      rw [not_and, Bool.not_eq_false] at hcancel
      exact hcancel ((mem_subtree hid).mpr hbelow)
    cases hstate : before.state with
    | terminal result => rfl
    | cancelled => rfl
    | _ => rw [hstate] at hdone; cases hdone

/-- Every delivery to or from a task at or below the cancelled one is over. -/
theorem isFinished_of_cancel (h : cancel s id = .ok t) {delivery : DeliveryRecord}
    (hdelivery : delivery ∈ t.deliveries) (hbelow : Below s id delivery.task) :
    delivery.state.isFinished = true := by
  obtain ⟨hid, rfl⟩ := cancel_eq_ok.mp h
  obtain ⟨before, _, rfl⟩ := mem_map.mp hdelivery
  by_cases hcancel : (before.task ∈ subtree s id ∨ recipientIn s (subtree s id) before = true) ∧
      before.state.isObserved = false
  · rw [if_pos hcancel]
    rfl
  · rw [if_neg hcancel] at hbelow ⊢
    have hobserved : before.state.isObserved = true := by
      rw [not_and, Bool.not_eq_false] at hcancel
      exact hcancel (.inl ((mem_subtree hid).mpr hbelow))
    cases hstate : before.state with
    | observed run => rfl
    | _ => rw [hstate] at hobserved; cases hobserved

/-! ## Many cancellations -/

theorem foldlM_cancel (ids : List TaskId) (hids : ∀ id ∈ ids, id ∈ s.taskIds) :
    ∃ t, ids.foldlM cancel s = .ok t ∧ Winds s t ∧ Framed s t ∧
      (∀ id ∈ ids, ∀ task ∈ t.tasks, Below s id task.id → task.state.isCancelledOrDone = true) ∧
      ∀ id ∈ ids, ∀ delivery ∈ t.deliveries, Below s id delivery.task → delivery.state.isFinished = true := by
  induction ids generalizing s with
  | nil => exact ⟨s, rfl, .refl s, .refl s, by simp, by simp⟩
  | cons id ids ih =>
    obtain ⟨hid, hids⟩ := forall_mem_cons.mp hids
    have hcancel := cancel_eq_ok.mpr ⟨hid, rfl⟩
    generalize settleGenerations (cancelTasks s (subtree s id)) = u at hcancel
    have w := winds_of_cancel hcancel
    obtain ⟨t, ht, wt, ft, htasks, hdeliveries⟩ := @ih u fun id h => by
      rw [w.taskIds]
      exact hids id h
    refine ⟨t, ?_, w.trans wt, (framed_of_cancel hcancel).trans ft, ?_, ?_⟩
    · rw [foldlM_cons, hcancel]
      exact ht
    · rw [forall_mem_cons]
      constructor
      · -- the tasks of the first id were cancelled first, and stay so
        intro task htask hbelow
        obtain ⟨before, hbefore, hwinds⟩ := exists_of_forall₂_right wt.tasks htask
        exact hwinds.isCancelledOrDone (isCancelledOrDone_of_cancel hcancel hbefore (hwinds.id ▸ hbelow))
      · exact fun id hid task htask hbelow => htasks id hid task htask (w.below hbelow)
    · rw [forall_mem_cons]
      constructor
      · intro delivery hdelivery hbelow
        obtain ⟨before, hbefore, hwinds⟩ := exists_of_forall₂_right wt.deliveries hdelivery
        exact hwinds.isFinished (isFinished_of_cancel hcancel hbefore (hwinds.task ▸ hbelow))
      · exact fun id hid delivery hdelivery hbelow =>
          hdeliveries id hid delivery hdelivery (w.below hbelow)

theorem EffectRecord.winds_dispose (effect : EffectRecord) : effect.Winds effect.dispose := by
  unfold EffectRecord.dispose
  split
  · exact ⟨rfl, rfl, rfl, rfl, rfl, rfl, .inr rfl⟩
  · exact .refl effect

/-- A run in shape is stopped: nothing works any more, and nothing waits to be delivered. -/
theorem exists_stop (h : Shaped enc s) : ∃ t, stop s = .ok t ∧ Winds s t ∧
    t.sequence = s.sequence ∧ t.outcome = stoppedByPerson ∧ t.wait = s.wait ∧
    t.cleanup = s.cleanup ∧ (∀ task ∈ t.tasks, task.state.isCancelledOrDone = true) ∧
    ∀ delivery ∈ t.deliveries, delivery.state.isFinished = true := by
  let ended : RunProjection := { s with
    phase := .finished
    outcome := stoppedByPerson }
  have wended : Winds s ended := { Winds.refl s with }
  obtain ⟨t, ht, w, f, htasks, hdeliveries⟩ := @foldlM_cancel ended (roots s) fun id hid =>
    mem_taskIds_of_mem_roots hid
  have wt : Winds s t := wended.trans w
  refine ⟨{ t with effects := t.effects.map EffectRecord.dispose }, ?_, ?_, f.sequence, f.outcome,
    f.wait, f.cleanup, ?_, ?_⟩
  · rw [stop, bind_eq_ok]
    exact ⟨t, ht, rfl⟩
  · have hdispose : Winds t { t with effects := t.effects.map EffectRecord.dispose } :=
      { Winds.refl t with
        effects := forall₂_map_self fun effect _ => effect.winds_dispose }
    exact wt.trans hdispose
  · intro task htask
    obtain ⟨before, hbefore, hwinds⟩ := exists_of_forall₂_right wt.tasks htask
    obtain ⟨root, hroot, hbelow⟩ := exists_below_root h hbefore
    exact htasks root hroot task htask (wended.below (hwinds.id ▸ hbelow))
  · intro delivery hdelivery
    obtain ⟨before, hbefore, hwinds⟩ := exists_of_forall₂_right wt.deliveries hdelivery
    obtain ⟨task, htask, hid⟩ := mem_taskIds.mp (h.deliveryTasks before hbefore)
    obtain ⟨root, hroot, hbelow⟩ := exists_below_root h htask
    refine hdeliveries root hroot delivery hdelivery (wended.below ?_)
    rwa [hwinds.task, ← hid]

end Kinewright.Orchestration
