import Kinewright.Lib.Lists
import Kinewright.Orchestration.Commit

/-!
# Projections in shape

What the validation of a projection says of it, check by check.
-/

namespace Kinewright.Orchestration

open Fallible Accounting

variable {enc : Encoding} {s : RunProjection}

/-- What `validate_projection` says of the records of a projection. -/
structure Shaped (enc : Encoding) (s : RunProjection) : Prop where
  attemptIds : (s.attempts.map fun reservation => reservation.identity.attempt).Nodup
  blockedAttempts : ∀ reservation ∈ s.attempts, checkBlockedAttempt reservation = .ok ()
  blockedTasks : ∀ task ∈ s.tasks, checkBlockedTask s task = .ok ()
  summary : checkCleanupSummary s = .ok ()
  taskIds : s.taskIds.Nodup
  parents : ∀ task ∈ s.tasks, ∀ parent ∈ task.parent, parent ∈ s.taskIds
  effectTasks : ∀ effect ∈ s.effects, effect.task ∈ s.taskIds
  deliveryTasks : ∀ delivery ∈ s.deliveries, delivery.task ∈ s.taskIds
  tasks : ∀ task ∈ s.tasks, checkTask s task = .ok ()
  questionIds : (s.questions.map QuestionRecord.id).Nodup
  questionTasks : ∀ question ∈ s.questions, question.task = question.origin.task ∧ question.task ∈ s.taskIds
  attempts : ∀ reservation ∈ s.attempts, checkAttempt enc s reservation = .ok ()
  effectIds : (s.effects.map EffectRecord.id).Nodup
  places : (s.effects.map fun effect => (effect.lane, effect.order)).Nodup
  deliveryIds : (s.deliveries.map DeliveryRecord.id).Nodup
  waits : checkWaits s = .ok ()
  ready : checkReady s = .ok ()

theorem checkTaskIds_eq_ok : checkTaskIds s = .ok () ↔ s.taskIds.Nodup ∧
    (∀ task ∈ s.tasks, ∀ parent ∈ task.parent, parent ∈ s.taskIds) ∧
    (∀ effect ∈ s.effects, effect.task ∈ s.taskIds) ∧
    ∀ delivery ∈ s.deliveries, delivery.task ∈ s.taskIds := by
  rw [checkTaskIds, refuse_eq_ok]
  push Not
  rfl

theorem checkQuestions_eq_ok : checkQuestions s = .ok () ↔
    (s.questions.map QuestionRecord.id).Nodup ∧ ∀ question ∈ s.questions,
      question.task = question.origin.task ∧ question.task ∈ s.taskIds := by
  rw [checkQuestions, refuse_eq_ok]
  push Not
  rfl

theorem checkEffects_eq_ok : checkEffects s = .ok () ↔ (s.effects.map EffectRecord.id).Nodup ∧
    (s.effects.map fun effect => (effect.lane, effect.order)).Nodup ∧
    (s.deliveries.map DeliveryRecord.id).Nodup := by
  rw [checkEffects, refuse_eq_ok]
  push Not
  rfl

theorem validateCleanup_eq_ok : validateCleanup s = .ok () ↔
    (∀ reservation ∈ s.attempts, checkBlockedAttempt reservation = .ok ()) ∧
      (∀ task ∈ s.tasks, checkBlockedTask s task = .ok ()) ∧ checkCleanupSummary s = .ok () := by
  simp only [validateCleanup, bind_eq_ok, ← all_eq_ok]
  exact ⟨fun ⟨⟨⟩, ha, ⟨⟩, ht, hs⟩ => ⟨ha, ht, hs⟩, fun ⟨ha, ht, hs⟩ => ⟨(), ha, (), ht, hs⟩⟩

theorem checkShape_eq_ok : checkShape enc s = .ok () ↔ Shaped enc s := by
  simp only [checkShape, bind_eq_ok, validateAttemptIds, refuse_eq_ok, not_not]
  constructor
  · rintro ⟨⟨⟩, hattempts, ⟨⟩, hcleanup, ⟨⟩, htaskIds, ⟨⟩, htasks, ⟨⟩, hquestions, ⟨⟩, hidentities,
      ⟨⟩, heffects, ⟨⟩, hwaits, hready⟩
    obtain ⟨hblocked, hblockedTasks, hsummary⟩ := validateCleanup_eq_ok.mp hcleanup
    obtain ⟨hids, hparents, heffectTasks, hdeliveryTasks⟩ := checkTaskIds_eq_ok.mp htaskIds
    obtain ⟨hquestionIds, hquestionTasks⟩ := checkQuestions_eq_ok.mp hquestions
    obtain ⟨heffectIds, hplaces, hdeliveryIds⟩ := checkEffects_eq_ok.mp heffects
    exact ⟨hattempts, hblocked, hblockedTasks, hsummary, hids, hparents, heffectTasks,
      hdeliveryTasks, all_eq_ok.mp htasks, hquestionIds, hquestionTasks, all_eq_ok.mp hidentities,
      heffectIds, hplaces, hdeliveryIds, hwaits, hready⟩
  · intro h
    exact ⟨(), h.attemptIds, (), validateCleanup_eq_ok.mpr ⟨h.blockedAttempts, h.blockedTasks, h.summary⟩, (),
      checkTaskIds_eq_ok.mpr ⟨h.taskIds, h.parents, h.effectTasks, h.deliveryTasks⟩, (),
      all_eq_ok.mpr h.tasks, (), checkQuestions_eq_ok.mpr ⟨h.questionIds, h.questionTasks⟩, (),
      all_eq_ok.mpr h.attempts, (),
      checkEffects_eq_ok.mpr ⟨h.effectIds, h.places, h.deliveryIds⟩, (), h.waits, h.ready⟩

theorem validateProjection_eq_ok : validateProjection enc s = .ok () ↔ checkCounts s = .ok () ∧
    encoded (enc.projectionBytes s) CONTROL_BYTES = .ok () ∧ Shaped enc s := by
  simp only [validateProjection, bind_eq_ok, checkShape_eq_ok]
  exact ⟨fun ⟨⟨⟩, hcounts, ⟨⟩, hbytes, h⟩ => ⟨hcounts, hbytes, h⟩,
    fun ⟨hcounts, hbytes, h⟩ => ⟨(), hcounts, (), hbytes, h⟩⟩

/-- A projection that was validated is in shape. -/
theorem shaped_of_valid (h : validateProjection enc s = .ok ()) : Shaped enc s := (validateProjection_eq_ok.mp h).2.2

/-! ## Tasks by their ids -/

variable {id : TaskId}

theorem mem_taskIds : id ∈ s.taskIds ↔ ∃ task ∈ s.tasks, task.id = id := by
  simp [RunProjection.taskIds]

variable {task : TaskRecord}

theorem mem_of_task? (h : s.task? id = some task) : task ∈ s.tasks := List.mem_of_find?_eq_some h

theorem id_of_task? (h : s.task? id = some task) : task.id = id := by
  simpa using List.find?_some h

section

variable (h : Shaped enc s) (htask : task ∈ s.tasks)

include h htask

/-- Every task is the one that is found by its id. -/
theorem Shaped.task?_id : s.task? task.id = some task := List.find?_key h.taskIds htask

theorem Shaped.task_ext {other : TaskRecord} (hother : other ∈ s.tasks) (hid : task.id = other.id) : task = other :=
  List.inj_on_of_nodup_map h.taskIds htask hother hid

theorem Shaped.parentOf_id : s.parentOf task.id = task.parent := by
  rw [RunProjection.parentOf, h.task?_id htask, Option.bind_some]

end

theorem task?_isSome : (s.task? id).isSome ↔ id ∈ s.taskIds := by
  simp [RunProjection.task?, mem_taskIds]

end Kinewright.Orchestration
