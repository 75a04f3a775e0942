import Kinewright.Lib.Passes
import Kinewright.Orchestration.Machine
import Kinewright.Orchestration.Shape

/-!
# What a cancellation does

A cancellation reaches a task and everything below it. It ends what is open there and leaves the
identity of every record as it is, and nothing that has ended is opened again.
-/

namespace Kinewright.Orchestration

open Fallible Accounting List

variable  {s t u : RunProjection} {ids : Finset TaskId}

/-! ## Descendants -/

/-- The task is the other one or below it. -/
inductive Below (s : RunProjection) (id : TaskId) : TaskId → Prop
  | self : Below s id id
  | child {task : TaskRecord} {parent : TaskId} (htask : task ∈ s.tasks)
      (hparent : task.parent = some parent) (habove : Below s id parent) : Below s id task.id

theorem subset_subtreePass (s : RunProjection) (ids : Finset TaskId) : ids ⊆ subtreePass s ids := by
  unfold subtreePass
  induction s.tasks generalizing ids with
  | nil => exact Finset.Subset.refl ids
  | cons task tasks ih =>
    rw [foldl_cons]
    refine Finset.Subset.trans ?_ (ih _)
    split
    · exact Finset.subset_insert task.id ids
    · exact Finset.Subset.refl ids

/-- What holds of the ids and passes from a parent to its children holds after the pass. -/
theorem subtreePass_forall {P : TaskId → Prop} (hchild : ∀ task ∈ s.tasks, ∀ parent ∈ task.parent, P parent → P task.id)
    (hids : ∀ id ∈ ids, P id) : ∀ id ∈ subtreePass s ids, P id := by
  unfold subtreePass
  revert hchild
  induction s.tasks generalizing ids with
  | nil => exact fun _ => hids
  | cons task tasks ih =>
    intro hchild
    rw [foldl_cons]
    refine ih ?_ fun other hother => hchild other (mem_cons_of_mem task hother)
    split
    · next hparent =>
      obtain ⟨parent, hparent, hmem⟩ := hparent
      exact Finset.forall_mem_insert _ _ _ |>.mpr ⟨hchild task mem_cons_self parent hparent (hids parent hmem), hids⟩
    · exact hids

/-- The pass reaches every child of what is there before it. -/
theorem child_mem_subtreePass {task : TaskRecord} (htask : task ∈ s.tasks) {parent : TaskId}
    (hparent : task.parent = some parent) (hmem : parent ∈ ids) : task.id ∈ subtreePass s ids := by
  unfold subtreePass
  obtain ⟨before, after, hsplit⟩ := append_of_mem htask
  rw [hsplit, foldl_append, foldl_cons]
  have hgrows (tasks : List TaskRecord) (ids : Finset TaskId) := subset_subtreePass
    { s with tasks := tasks } ids
  have hthere := hgrows before ids hmem
  refine hgrows after _ ?_
  rw [if_pos ⟨parent, hparent, hthere⟩]
  exact Finset.mem_insert_self _ _

variable {id : TaskId}

theorem below_of_mem_subtree {other : TaskId} (h : other ∈ subtree s id) : Below s id other := by
  have hpasses (n : ℕ) (ids : Finset TaskId) (hids : ∀ other ∈ ids, Below s id other) :
      ∀ other ∈ (subtreePass s)^[n] ids, Below s id other := by
    induction n generalizing ids with
    | zero => exact hids
    | succ n ih =>
      exact ih _ (subtreePass_forall (fun task htask parent hparent habove =>
        .child htask hparent habove) hids)
  refine hpasses s.tasks.length {id} ?_ other h
  intro other hother
  rw [Finset.mem_singleton.mp hother]
  exact .self

/-- As many passes as there are tasks reach everything below a task. -/
theorem mem_subtree {other : TaskId} (hid : id ∈ s.taskIds) : other ∈ subtree s id ↔ Below s id other := by
  refine ⟨below_of_mem_subtree, fun h => ?_⟩
  have hgrows := subset_subtreePass s
  have hrest : subtreePass s (subtree s id) = subtree s id := by
    have hbound (ids : Finset TaskId) (hids : ids ⊆ s.taskIds.toFinset) :
        subtreePass s ids ⊆ s.taskIds.toFinset := by
      intro other hother
      refine subtreePass_forall (P := (· ∈ s.taskIds.toFinset)) ?_ (fun _ h => hids h) other hother
      intro task htask _ _ _
      exact mem_toFinset.mpr (mem_taskIds.mpr ⟨task, htask, rfl⟩)
    apply Finset.iterate_at_rest hgrows hbound
    · exact Finset.singleton_subset_iff.mpr (mem_toFinset.mpr hid)
    · have hcard := toFinset_card_le s.taskIds
      rw [RunProjection.taskIds, length_map] at hcard
      exact hcard.trans (Nat.le_add_right _ _)
  induction h with
  | self => exact Finset.subset_iterate hgrows _ _ (Finset.mem_singleton_self id)
  | child htask hparent _ ih =>
    rw [← hrest]
    exact child_mem_subtreePass htask hparent ih

/-! ## What a cancellation may do to a record -/

/-- A task is left as it is or is cancelled, unless it has ended. -/
structure TaskRecord.Winds (a b : TaskRecord) : Prop where
  id : b.id = a.id
  parent : b.parent = a.parent
  brief : b.brief = a.brief
  progress : b.progress = a.progress ∨ b.progress = { a.progress with capacity := .free }
  state : b.state = a.state ∨ a.state.isDone = false ∧ (b.state = .cancelling ∨ b.state = .cancelled)

/-- An attempt is left as it is or is told to stop, unless it has or its cleanup is blocked. -/
structure AttemptReservation.Winds (a b : AttemptReservation) : Prop where
  identity : b.identity = a.identity
  ownerEpoch : b.ownerEpoch = a.ownerEpoch
  recoveryRef : b.recoveryRef = a.recoveryRef
  state : b.state = a.state ∨ a.state.isRetired = false ∧ a.state.isBlocked = false ∧ b.state = .stopping

/-- An effect is left as it is or is finished. -/
structure EffectRecord.Winds (a b : EffectRecord) : Prop where
  id : b.id = a.id
  task : b.task = a.task
  lane : b.lane = a.lane
  order : b.order = a.order
  safety : b.safety = a.safety
  payload : b.payload = a.payload
  state : b.state = a.state ∨ b.state.isFinished = true

/-- A delivery is left as it is or is disposed of, unless it was observed. -/
structure DeliveryRecord.Winds (a b : DeliveryRecord) : Prop where
  id : b.id = a.id
  task : b.task = a.task
  result : b.result = a.result
  generation : b.generation = a.generation
  wake : b.wake = a.wake
  message : b.message = a.message
  state : b.state = a.state ∨ a.state.isObserved = false ∧ b.state = .disposed

/-- A question is left as it is or is cancelled, if it was pending. -/
structure QuestionRecord.Winds (a b : QuestionRecord) : Prop where
  id : b.id = a.id
  task : b.task = a.task
  prompt : b.prompt = a.prompt
  origin : b.origin = a.origin
  status : b.status = a.status ∨ a.status = .pending ∧ b.status = .cancelled

inductive RuntimeRequest.Winds : RuntimeRequest → RuntimeRequest → Prop
  | question {a b : QuestionRecord} (h : a.Winds b) : Winds (.question a) (.question b)
  | same (request : RuntimeRequest) : Winds request request

/-- What any number of cancellations may do to the records of a projection. -/
structure Winds (s t : RunProjection) : Prop where
  run : t.run = s.run
  results : t.results = s.results
  usage : t.usage = s.usage
  tasks : List.Forall₂ TaskRecord.Winds s.tasks t.tasks
  attempts : List.Forall₂ AttemptReservation.Winds s.attempts t.attempts
  effects : List.Forall₂ EffectRecord.Winds s.effects t.effects
  deliveries : List.Forall₂ DeliveryRecord.Winds s.deliveries t.deliveries
  requests : List.Forall₂ RuntimeRequest.Winds s.requests t.requests

theorem TaskRecord.Winds.refl (a : TaskRecord) : a.Winds a := ⟨rfl, rfl, rfl, .inl rfl, .inl rfl⟩

theorem AttemptReservation.Winds.refl (a : AttemptReservation) : a.Winds a := ⟨rfl, rfl, rfl, .inl rfl⟩

theorem EffectRecord.Winds.refl (a : EffectRecord) : a.Winds a := ⟨rfl, rfl, rfl, rfl, rfl, rfl, .inl rfl⟩

theorem DeliveryRecord.Winds.refl (a : DeliveryRecord) : a.Winds a := ⟨rfl, rfl, rfl, rfl, rfl, rfl, .inl rfl⟩

theorem QuestionRecord.Winds.refl (a : QuestionRecord) : a.Winds a := ⟨rfl, rfl, rfl, rfl, .inl rfl⟩

theorem TaskRecord.Winds.trans {a b c : TaskRecord} (hab : a.Winds b) (hbc : b.Winds c) :
    a.Winds c where
  id := hbc.id.trans hab.id
  parent := hbc.parent.trans hab.parent
  brief := hbc.brief.trans hab.brief
  progress := by
    rcases hbc.progress with hc | hc
    · rcases hab.progress with hb | hb
      · exact .inl (hc.trans hb)
      · exact .inr (hc.trans hb)
    · rcases hab.progress with hb | hb
      · exact .inr (hb ▸ hc)
      · exact .inr (by rw [hc, hb])
  state := by
    rcases hab.state with hb | ⟨hopen, hb⟩
    · exact hb ▸ hbc.state
    · rcases hbc.state with hc | ⟨_, hc⟩
      · exact .inr ⟨hopen, hc ▸ hb⟩
      · exact .inr ⟨hopen, hc⟩

theorem AttemptReservation.Winds.trans {a b c : AttemptReservation} (hab : a.Winds b)
    (hbc : b.Winds c) : a.Winds c where
  identity := hbc.identity.trans hab.identity
  ownerEpoch := hbc.ownerEpoch.trans hab.ownerEpoch
  recoveryRef := hbc.recoveryRef.trans hab.recoveryRef
  state := by
    rcases hab.state with hb | ⟨hretired, hblocked, hb⟩
    · exact hb ▸ hbc.state
    · rcases hbc.state with hc | ⟨_, _, hc⟩
      · exact .inr ⟨hretired, hblocked, hc.trans hb⟩
      · exact .inr ⟨hretired, hblocked, hc⟩

theorem EffectRecord.Winds.trans {a b c : EffectRecord} (hab : a.Winds b) (hbc : b.Winds c) :
    a.Winds c where
  id := hbc.id.trans hab.id
  task := hbc.task.trans hab.task
  lane := hbc.lane.trans hab.lane
  order := hbc.order.trans hab.order
  safety := hbc.safety.trans hab.safety
  payload := hbc.payload.trans hab.payload
  state := by
    rcases hbc.state with hc | hc
    · rw [hc]
      exact hab.state
    · exact .inr hc

theorem DeliveryRecord.Winds.trans {a b c : DeliveryRecord} (hab : a.Winds b) (hbc : b.Winds c) :
    a.Winds c where
  id := hbc.id.trans hab.id
  task := hbc.task.trans hab.task
  result := hbc.result.trans hab.result
  generation := hbc.generation.trans hab.generation
  wake := hbc.wake.trans hab.wake
  message := hbc.message.trans hab.message
  state := by
    rcases hab.state with hb | ⟨hopen, hb⟩
    · exact hb ▸ hbc.state
    · rcases hbc.state with hc | ⟨_, hc⟩
      · exact .inr ⟨hopen, hc.trans hb⟩
      · exact .inr ⟨hopen, hc⟩

theorem QuestionRecord.Winds.trans {a b c : QuestionRecord} (hab : a.Winds b) (hbc : b.Winds c) :
    a.Winds c where
  id := hbc.id.trans hab.id
  task := hbc.task.trans hab.task
  prompt := hbc.prompt.trans hab.prompt
  origin := hbc.origin.trans hab.origin
  status := by
    rcases hab.status with hb | ⟨hpending, hb⟩
    · exact hb ▸ hbc.status
    · rcases hbc.status with hc | ⟨_, hc⟩
      · exact .inr ⟨hpending, hc.trans hb⟩
      · exact .inr ⟨hpending, hc⟩

theorem RuntimeRequest.Winds.trans {a b c : RuntimeRequest} (hab : a.Winds b) (hbc : b.Winds c) : a.Winds c := by
  cases hab with
  | same => exact hbc
  | question hab =>
    cases hbc with
    | same => exact .question hab
    | question hbc => exact .question (hab.trans hbc)

theorem Winds.refl (s : RunProjection) : Winds s s where
  run := rfl
  results := rfl
  usage := rfl
  tasks := forall₂_same.mpr fun task _ => .refl task
  attempts := forall₂_same.mpr fun reservation _ => .refl reservation
  effects := forall₂_same.mpr fun effect _ => .refl effect
  deliveries := forall₂_same.mpr fun delivery _ => .refl delivery
  requests := forall₂_same.mpr fun request _ => .same request

theorem Winds.trans (hst : Winds s t) (htu : Winds t u) : Winds s u where
  run := htu.run.trans hst.run
  results := htu.results.trans hst.results
  usage := htu.usage.trans hst.usage
  tasks := List.forall₂_trans (fun _ _ _ => .trans) hst.tasks htu.tasks
  attempts := List.forall₂_trans (fun _ _ _ => .trans) hst.attempts htu.attempts
  effects := List.forall₂_trans (fun _ _ _ => .trans) hst.effects htu.effects
  deliveries := List.forall₂_trans (fun _ _ _ => .trans) hst.deliveries htu.deliveries
  requests := List.forall₂_trans (fun _ _ _ => .trans) hst.requests htu.requests

/-! ## Cancellations wind up -/

theorem TaskRecord.winds_cancel (s : RunProjection) (task : TaskRecord)
    (hopen : task.state.isDone = false) : task.Winds (task.cancel s) := by
  unfold TaskRecord.cancel
  split
  · exact ⟨rfl, rfl, rfl, .inl rfl, .inr ⟨hopen, .inl rfl⟩⟩
  · exact ⟨rfl, rfl, rfl, .inr rfl, .inr ⟨hopen, .inr rfl⟩⟩

theorem QuestionRecord.winds_cancel (ids : Finset TaskId) (question : QuestionRecord) :
    question.Winds (question.cancel ids) := by
  unfold QuestionRecord.cancel
  split
  · next h => exact ⟨rfl, rfl, rfl, rfl, .inr ⟨h.2, rfl⟩⟩
  · exact .refl question

theorem RuntimeRequest.winds_map {change : QuestionRecord → QuestionRecord}
    (hchange : ∀ question : QuestionRecord, question.Winds (change question)) (request : RuntimeRequest) :
    request.Winds (request.mapQuestion change) := by
  cases request with
  | question asked => exact .question (hchange asked)
  | approval attention | secret attention => exact .same _

theorem winds_cancelTasks (s : RunProjection) (ids : Finset TaskId) :
    Winds s (cancelTasks s ids) where
  run := rfl
  results := rfl
  usage := rfl
  tasks := by
    apply forall₂_map_self
    intro task _
    split
    · next h => exact task.winds_cancel s h.2
    · exact .refl task
  attempts := by
    apply forall₂_map_self
    intro reservation _
    split
    · next h => exact ⟨rfl, rfl, rfl, .inr ⟨h.2.1, h.2.2, rfl⟩⟩
    · exact .refl reservation
  effects := by
    apply forall₂_map_self
    intro effect _
    split
    · exact ⟨rfl, rfl, rfl, rfl, rfl, rfl, .inr rfl⟩
    · exact .refl effect
  deliveries := by
    apply forall₂_map_self
    intro delivery _
    split
    · next h => exact ⟨rfl, rfl, rfl, rfl, rfl, rfl, .inr ⟨h.2, rfl⟩⟩
    · exact .refl delivery
  requests := forall₂_map_self fun request _ =>
    request.winds_map fun question => question.winds_cancel ids

theorem winds_settleGenerations (s : RunProjection) : Winds s (settleGenerations s) := by
  refine { Winds.refl s with effects := ?_ }
  apply forall₂_map_self
  intro effect _
  simp only
  split
  · refine ⟨rfl, rfl, rfl, rfl, rfl, rfl, .inr ?_⟩
    split
    · rfl
    · rfl
  · exact .refl effect

theorem cancel_eq_ok : cancel s id = .ok t ↔ id ∈ s.taskIds ∧ t = settleGenerations (cancelTasks s (subtree s id)) := by
  simp only [cancel, bind_eq_ok, okOr_eq_ok, ← task?_isSome, Option.isSome_iff_exists]
  constructor
  · rintro ⟨task, htask, ⟨⟩⟩
    exact ⟨⟨task, htask⟩, rfl⟩
  · rintro ⟨⟨task, htask⟩, rfl⟩
    exact ⟨task, htask, rfl⟩

theorem winds_of_cancel (h : cancel s id = .ok t) : Winds s t := by
  obtain ⟨_, rfl⟩ := cancel_eq_ok.mp h
  exact (winds_cancelTasks s _).trans (winds_settleGenerations _)

end Kinewright.Orchestration
