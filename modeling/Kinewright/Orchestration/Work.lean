import Kinewright.Orchestration.Stop

/-!
# The work of a run

What is left of a run when it is no longer said how the run is going: its tasks, their effects, what is
delivered and what is asked. A command changes the work in one of a few ways, whatever it checks first.
-/

namespace Kinewright.Orchestration

open Fallible Accounting

/-- The work of a run. -/
structure Work where
  outcome : RunOutcome
  tasks : List TaskRecord
  effects : List EffectRecord
  deliveries : List DeliveryRecord
  questions : List QuestionRecord
  results : List ObjectRef

/-- The work of a projection. -/
def RunProjection.work (s : RunProjection) : Work where
  outcome := s.outcome
  tasks := s.tasks
  effects := s.effects
  deliveries := s.deliveries
  questions := s.questions
  results := s.results

/-- Every record is there once, and what it is about is there. -/
structure Work.Formed (w : Work) : Prop where
  taskIds : (w.tasks.map TaskRecord.id).Nodup
  parents : ∀ task ∈ w.tasks, ∀ parent ∈ task.parent, ∃ other ∈ w.tasks, other.id = parent
  deliveryTasks : ∀ delivery ∈ w.deliveries, ∃ task ∈ w.tasks, task.id = delivery.task
  effectIds : (w.effects.map EffectRecord.id).Nodup
  places : (w.effects.map fun effect => (effect.lane, effect.order)).Nodup
  deliveryIds : (w.deliveries.map DeliveryRecord.id).Nodup
  origins : ∀ question ∈ w.questions, question.task = question.origin.task

variable {enc : Encoding} {s : RunProjection} {w w' : Work}

theorem Shaped.formed (h : Shaped enc s) : s.work.Formed where
  taskIds := h.taskIds
  parents task htask parent hparent := mem_taskIds.mp (h.parents task htask parent hparent)
  deliveryTasks delivery hdelivery := mem_taskIds.mp (h.deliveryTasks delivery hdelivery)
  effectIds := h.effectIds
  places := h.places
  deliveryIds := h.deliveryIds
  origins question hquestion := (h.questionTasks question hquestion).1

theorem Work.Formed.task_ext (h : w.Formed) {task other : TaskRecord} (htask : task ∈ w.tasks)
    (hother : other ∈ w.tasks) (hid : task.id = other.id) : task = other :=
  List.inj_on_of_nodup_map h.taskIds htask hother hid

/-! ## What a command may do to a record -/

/-- How a task moves that is neither frozen nor published by the command. -/
structure TaskRecord.Moves (a b : TaskRecord) : Prop where
  id : b.id = a.id
  parent : b.parent = a.parent
  brief : b.brief = a.brief
  done : a.state.isDone = true → b.state = a.state
  cancelling : a.state = .cancelling → b.state = .cancelling ∨ b.state = .cancelled
  terminal : ∀ result, b.state = .terminal result → a.state = .terminal result
  blocked : ∀ identity, b.state = .cleanupBlocked identity → a.state = .cleanupBlocked identity
  freezing : b.state = .freezing → a.state = .freezing ∧ (a.progress.turnEnded = true → b.progress.turnEnded = true) ∧
    (a.progress.expired = false → b.progress.expired = false)

/-- How a delivery moves. -/
inductive DeliveryState.Moves : DeliveryState → DeliveryState → Prop
  | same (state : DeliveryState) : Moves state state
  | offer {state : DeliveryState} (hopen : state.isFinished = false) (attempt : AttemptId)
      (message : StableMessageId) : Moves state (.offered attempt message)
  | observe (attempt : AttemptId) (message : StableMessageId) (run : RunId) :
      Moves (.offered attempt message) (.observed run)
  | dispose {state : DeliveryState} (hopen : state.isFinished = false) : Moves state .disposed

structure DeliveryRecord.Moves (a b : DeliveryRecord) : Prop where
  id : b.id = a.id
  task : b.task = a.task
  result : b.result = a.result
  generation : b.generation = a.generation
  wake : b.wake = a.wake
  message : b.message = a.message
  state : a.state.Moves b.state

/-- A question is not asked again. -/
structure QuestionRecord.Moves (a b : QuestionRecord) : Prop where
  id : b.id = a.id
  task : b.task = a.task
  origin : b.origin = a.origin
  status : b.status = .pending → a.status = .pending

theorem TaskRecord.Moves.refl (a : TaskRecord) : a.Moves a :=
  ⟨rfl, rfl, rfl, fun _ => rfl, .inl, fun _ h => h, fun _ h => h, fun h => ⟨h, fun h => h, fun h => h⟩⟩

theorem TaskRecord.Moves.trans {a b c : TaskRecord} (hab : a.Moves b) (hbc : b.Moves c) :
    a.Moves c where
  id := hbc.id.trans hab.id
  parent := hbc.parent.trans hab.parent
  brief := hbc.brief.trans hab.brief
  done ha := by
    have hb := hab.done ha
    exact (hbc.done (hb ▸ ha)).trans hb
  cancelling ha := by
    rcases hab.cancelling ha with hb | hb
    · exact hbc.cancelling hb
    · exact .inr ((hbc.done (by rw [hb]; rfl)).trans hb)
  terminal result hc := hab.terminal result (hbc.terminal result hc)
  blocked identity hc := hab.blocked identity (hbc.blocked identity hc)
  freezing hc := by
    obtain ⟨hb, hended, hexpired⟩ := hbc.freezing hc
    obtain ⟨ha, hended', hexpired'⟩ := hab.freezing hb
    exact ⟨ha, fun h => hended (hended' h), fun h => hexpired (hexpired' h)⟩

theorem DeliveryRecord.Moves.refl (a : DeliveryRecord) : a.Moves a := ⟨rfl, rfl, rfl, rfl, rfl, rfl, .same a.state⟩

theorem QuestionRecord.Moves.refl (a : QuestionRecord) : a.Moves a := ⟨rfl, rfl, rfl, fun h => h⟩

theorem DeliveryRecord.Moves.isFinished {a b : DeliveryRecord} (h : a.Moves b)
    (ha : a.state.isFinished = true) : b.state.isFinished = true := by
  have hstate := h.state
  generalize hbefore : a.state = before, b.state = after at ha hstate
  cases hstate with
  | same => exact ha
  | offer hopen => rw [hopen] at ha; cases ha
  | observe => rfl
  | dispose => rfl

theorem TaskRecord.Moves.isCancelledOrDone {a b : TaskRecord} (h : a.Moves b)
    (ha : a.state.isCancelledOrDone = true) : b.state.isCancelledOrDone = true := by
  cases hstate : a.state with
  | terminal result | cancelled => rw [h.done (by rw [hstate]; rfl)]; exact ha
  | cancelling =>
    rcases h.cancelling hstate with h | h
    · rw [h]; rfl
    · rw [h]; rfl
  | _ => rw [hstate] at ha; cases ha

theorem TaskRecord.Winds.moves {a b : TaskRecord} (h : a.Winds b) : a.Moves b where
  id := h.id
  parent := h.parent
  brief := h.brief
  done hdone := by
    rcases h.state with h | ⟨hopen, _⟩
    · exact h
    · rw [hopen] at hdone; cases hdone
  cancelling ha := by
    rcases h.state with h | ⟨_, h⟩
    · exact .inl (h.trans ha)
    · exact h
  terminal result hb := by
    rcases h.state with h | ⟨_, h | h⟩
    · exact h ▸ hb
    all_goals rw [h] at hb; cases hb
  blocked identity hb := Orchestration.Winds.cleanup? h hb
  freezing hb := by
    rcases h.state with hstate | ⟨_, hstate | hstate⟩
    · rcases h.progress with h | h
      all_goals exact ⟨hstate ▸ hb, by rw [h]; exact fun h => h, by rw [h]; exact fun h => h⟩
    all_goals rw [hstate] at hb; cases hb

theorem DeliveryRecord.Winds.moves {a b : DeliveryRecord} (h : a.Winds b) : a.Moves b where
  id := h.id
  task := h.task
  result := h.result
  generation := h.generation
  wake := h.wake
  message := h.message
  state := by
    rcases h.state with h | ⟨hopen, h⟩
    · rw [h]
      exact .same _
    · rw [h]
      cases hstate : a.state with
      | disposed => exact .same _
      | observed run => rw [hstate] at hopen; cases hopen
      | pending | offered attempt message => exact .dispose rfl

theorem QuestionRecord.Winds.moves {a b : QuestionRecord} (h : a.Winds b) : a.Moves b where
  id := h.id
  task := h.task
  origin := h.origin
  status hb := by
    rcases h.status with h | ⟨hpending, _⟩
    · exact h ▸ hb
    · exact hpending

/-! ## What a command may do to the work -/

namespace Work

/-- The task has the parent. -/
def HasParent (w : Work) (id parent : TaskId) : Prop := ∃ task ∈ w.tasks, task.id = id ∧ task.parent = some parent

/-- Nothing is left to deliver at the wake, or to its task. -/
def Idle (w : Work) (effect : EffectRecord) : Prop :=
  (∀ delivery ∈ w.deliveries, delivery.wake = effect.id → delivery.state.isFinished = true) ∨
    ∀ delivery ∈ w.deliveries, w.HasParent delivery.task effect.task → delivery.state.isFinished = true

/-- The task may be frozen or published: its work has ended, and nothing of it is outstanding. -/
structure Ready (w : Work) (task : TaskRecord) : Prop where
  turnEnded : task.progress.turnEnded = true
  unexpired : task.progress.expired = false
  work : ∃ turn ∈ task.progress.turn, turn.purpose = .work
  background : task.progress.background = 0
  isOpen : task.state.isClosed = false
  children : ∀ child ∈ w.tasks, child.parent = some task.id → child.state.isDone = true
  questions : ∀ question ∈ w.questions, question.task = task.id → question.status ≠ .pending

/-- The effect is a new one at the end of its lane. -/
structure Appends (w : Work) (effect : EffectRecord) : Prop where
  pending : effect.state = .pending
  last : ∀ other ∈ w.effects, other.lane = effect.lane → other.order < effect.order

/-- The tasks but for one, whose state is a new one. -/
def Sets (w w' : Work) (task : TaskRecord) (state : TaskState) : Prop :=
  List.Forall₂ (fun a b => a ≠ task ∧ b = a ∨ a = task ∧ b = { a with state := state }) w.tasks w'.tasks

/-- The delivery of a result, and the wake of its parent if it needs a new one. -/
inductive Delivers (w : Work) (task : TaskRecord) : DeliveryRecord → List EffectRecord → Prop
  | coalesced {delivery pending : DeliveryRecord} (hpending : pending ∈ w.deliveries)
      (hstate : pending.state = .pending) {parent : TaskId} (hparent : task.parent = some parent)
      (hsibling : w.HasParent pending.task parent)
      (hgeneration : delivery.generation = pending.generation)
      (hwake : delivery.wake = pending.wake) (hmessage : delivery.message = pending.message) :
      Delivers w task delivery []
  | opened {delivery : DeliveryRecord} {effect : EffectRecord} {parent : TaskId} (hparent : task.parent = some parent)
      (hnone : ∀ other ∈ w.deliveries, w.HasParent other.task parent → other.state ≠ .pending)
      (hgeneration : ∀ other ∈ w.deliveries, w.HasParent other.task parent → other.generation < delivery.generation)
      (hwake : delivery.wake = effect.id) (htask : effect.task = parent)
      (happends : w.Appends effect) : Delivers w task delivery [effect]

/-- What a command may do to the work. -/
inductive Change (w w' : Work) : Prop
  /-- No record is new. The run may have been stopped. -/
  | moved (outcome : w'.outcome = w.outcome ∨ w'.outcome ≠ .pending ∧
        ∀ task ∈ w'.tasks, task.state.isCancelledOrDone = true)
      (results : w'.results = w.results)
      (tasks : List.Forall₂ TaskRecord.Moves w.tasks w'.tasks)
      (effects : List.Forall₂ EffectRecord.Winds w.effects w'.effects)
      (idle : ∀ effect ∈ w'.effects, effect.state.isFinished = true →
        (∃ before ∈ w.effects, before.id = effect.id ∧ before.state.isFinished = true) ∨ w'.Idle effect)
      (deliveries : List.Forall₂ DeliveryRecord.Moves w.deliveries w'.deliveries)
      (questions : List.Forall₂ QuestionRecord.Moves w.questions w'.questions)
  | asked (question : QuestionRecord) (task : TaskRecord) (htask : task ∈ w.tasks)
      (hid : task.id = question.task) (hopen : task.state.isClosed = false)
      (hturn : task.progress.turnEnded = false)
      (tasks : List.Forall₂ TaskRecord.Moves w.tasks w'.tasks)
      (rest : w' = { w with
        tasks := w'.tasks
        questions := w.questions ++ [question] })
  | frozen (task : TaskRecord) (htask : task ∈ w.tasks) (hready : w.Ready task)
      (tasks : w.Sets w' task .freezing) (rest : w' = { w with tasks := w'.tasks })
  | assigned (task : TaskRecord) (effect : EffectRecord) (parent : TaskRecord)
      (hparent : parent ∈ w.tasks) (hof : task.parent = some parent.id)
      (hopen : parent.state ≠ .freezing ∧ parent.state.isClosed = false)
      (hqueued : task.state = .queued)
      (hfree : task.brief.role ≠ .reviewer → ∀ other ∈ w.tasks, other.occupies task.brief.branch = false)
      (happends : w.Appends effect)
      (rest : w' = { w with
        tasks := w.tasks ++ [task]
        effects := w.effects ++ [effect] })
  | messaged (effect : EffectRecord) (happends : w.Appends effect)
      (rest : w' = { w with effects := w.effects ++ [effect] })
  | published (task : TaskRecord) (result : ObjectRef) (htask : task ∈ w.tasks)
      (hready : w.Ready task) (hfreezing : task.state = .freezing)
      (tasks : w.Sets w' task (.terminal result)) (deliveries : List DeliveryRecord)
      (effects : List EffectRecord)
      (hdeliveries : (task.parent = none ∧ deliveries = [] ∧ effects = []) ∨
        ∃ delivery, deliveries = [delivery] ∧ w.Delivers task delivery effects ∧
          delivery.task = task.id ∧ delivery.result = result ∧ delivery.state = .pending)
      (rest : w' = { w with
        tasks := w'.tasks
        results := w.results ++ [result]
        deliveries := w.deliveries ++ deliveries
        effects := w.effects ++ effects })
  /-- An effect is claimed, lost or retried by the host. -/
  | hosted (id : EffectId) (state : EffectState)
      (hstate : (state = .pending ∧ ∃ effect ∈ w.effects, effect.id = id ∧ effect.state = .outcomeUnknown) ∨
        (state = .outcomeUnknown ∧ ∃ effect ∈ w.effects, ∃ attempt, effect.id = id ∧ effect.state = .claimed attempt) ∨
        ∃ attempt, state = .claimed attempt ∧ ∃ effect ∈ w.effects, effect.id = id ∧
          effect.state = .pending ∧ ∀ other ∈ w.effects, other.lane = effect.lane →
            other.state.isFinished = false → effect.order ≤ other.order)
      (effects : List.Forall₂ (fun a b => a.id ≠ id ∧ b = a ∨
        a.id = id ∧ b = { a with state := state }) w.effects w'.effects)
      (rest : w' = { w with effects := w'.effects })

end Work

end Kinewright.Orchestration
