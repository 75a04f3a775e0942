import Kinewright.Orchestration.Outbox
import Kinewright.Orchestration.Proposal
import Kinewright.Orchestration.Refresh
import Kinewright.Orchestration.Work

/-!
# Every command is a change of the work

Each function that carries out a command, taken by itself: what it checks first, and which change of
the work it then is.
-/

namespace Kinewright.Orchestration

open Fallible Accounting List RuntimeRequest Except TaskState
open Work (Change)
open TaskRecord hiding id

variable {enc : Encoding} {s t : RunProjection} {envelope : OrchestrationEnvelope}

/-! ## Records that move -/

/-- The state of a task that works, or waits to. -/
def TaskState.isWorking : TaskState → Bool
  | .queued | .preparing | .running _ | .waitingForQuestion _ | .waitingForChildren _ => true
  | _ => false

/-- A task that is open may go on to work. -/
theorem TaskRecord.moves_working {a b : TaskRecord} (hid : b.id = a.id) (hparent : b.parent = a.parent)
    (hbrief : b.brief = a.brief) (hopen : a.state.isCancelledOrDone = false)
    (hworking : b.state.isWorking = true) : a.Moves b where
  id := hid
  parent := hparent
  brief := hbrief
  done hdone := by
    cases hstate : a.state with
    | terminal result | cancelled => rw [hstate] at hopen; cases hopen
    | _ => rw [hstate] at hdone; cases hdone
  cancelling ha := by rw [ha] at hopen; cases hopen
  terminal result hb := by rw [hb] at hworking; cases hworking
  blocked identity hb := by rw [hb] at hworking; cases hworking
  freezing hb := by rw [hb] at hworking; cases hworking

/-- A task may make progress in its state, unless that starts its turn again. -/
theorem TaskRecord.moves_progress {a b : TaskRecord} (hid : b.id = a.id) (hparent : b.parent = a.parent)
    (hbrief : b.brief = a.brief) (hstate : b.state = a.state)
    (hended : a.progress.turnEnded = true → b.progress.turnEnded = true)
    (hexpired : a.progress.expired = false → b.progress.expired = false) : a.Moves b where
  id := hid
  parent := hparent
  brief := hbrief
  done _ := hstate
  cancelling ha := .inl (hstate.trans ha)
  terminal _ hb := hstate ▸ hb
  blocked _ hb := hstate ▸ hb
  freezing hb := ⟨hstate ▸ hb, hended, hexpired⟩

theorem TaskState.isCancelledOrDone_of_isClosed {state : TaskState} (h : state.isClosed = false) :
    state.isCancelledOrDone = false := by
  cases state with
  | terminal result => cases h
  | cancelled => cases h
  | cancelling => cases h
  | _ => rfl

variable {id : TaskId}

theorem forall₂_modifyTask {change : TaskRecord → TaskRecord}
    (h : ∀ task, s.task? id = some task → task.Moves (change task)) :
    List.Forall₂ Moves s.tasks (s.modifyTask id change).tasks :=
  forall₂_modifyFirst Moves.refl h

theorem forall₂_tasks_refl (tasks : List TaskRecord) : List.Forall₂ Moves tasks tasks :=
  forall₂_same.mpr fun task _ => .refl task

/-- A relation of the requests that moves their questions moves the list of questions. -/
theorem forall₂_questions {requests after : List RuntimeRequest} {P : RuntimeRequest → RuntimeRequest → Prop}
    (hP : ∀ a b, P a b → Option.Rel QuestionRecord.Moves a.question? b.question?)
    (h : List.Forall₂ P requests after) :
    List.Forall₂ QuestionRecord.Moves (requests.filterMap question?) (after.filterMap question?) :=
  rel_filterMap (fun {a b} => hP a b) h

variable {request : RuntimeRequest}

theorem RuntimeRequest.rel_mapQuestion {change : QuestionRecord → QuestionRecord}
    (h : ∀ question ∈ request.question?, question.Moves (change question)) :
    Option.Rel QuestionRecord.Moves request.question? (request.mapQuestion change).question? := by
  cases request with
  | question asked => exact .some (h asked rfl)
  | approval attention => exact .none
  | secret attention => exact .none

theorem RuntimeRequest.rel_refl (request : RuntimeRequest) :
    Option.Rel QuestionRecord.Moves request.question? request.question? := by
  cases request with
  | question asked => exact .some (.refl asked)
  | approval attention => exact .none
  | secret attention => exact .none

variable {question : QuestionRecord}

/-- The first request with a question of the id has the first question of the id. -/
theorem find?_question {id : QuestionId} {requests : List RuntimeRequest}
    (hquestion : request.question? = some question)
    (h : (requests.find? fun request => request.question?.any fun question => question.id = id) = some request) :
    (requests.filterMap question?).find? (fun question => question.id = id) = some question := by
  induction requests with
  | nil => cases h
  | cons first rest ih =>
    rw [find?_cons] at h
    rcases hfirst : first.question? with _ | other
    · rw [hfirst] at h
      rw [filterMap_cons_none hfirst]
      exact ih h
    · rw [hfirst, Option.any_some] at h
      rw [filterMap_cons_some hfirst, find?_cons]
      cases hid : decide (other.id = id) with
      | true =>
        rw [hid] at h
        obtain rfl := Option.some.inj h
        exact hfirst.symm.trans hquestion
      | false =>
        rw [hid] at h
        exact ih h

/-- A change of a question that does not ask it again. -/
theorem forall₂_modifyQuestion {id : QuestionId} {change : QuestionRecord → QuestionRecord}
    (h : ∀ question, s.question? id = some question → question.Moves (change question)) :
    List.Forall₂ QuestionRecord.Moves s.questions (s.modifyQuestion id change).questions := by
  refine forall₂_questions (P := fun a b => Option.Rel QuestionRecord.Moves a.question? b.question?)
    (fun _ _ h => h) (forall₂_modifyFirst rel_refl ?_)
  intro request hrequest
  exact rel_mapQuestion fun question hquestion =>
    h question (find?_question hquestion hrequest)

/-- A command that only moves tasks and questions. -/
theorem change_of_moves (outcome : t.outcome = s.outcome) (results : t.results = s.results)
    (effects : t.effects = s.effects) (deliveries : t.deliveries = s.deliveries)
    (tasks : List.Forall₂ Moves s.tasks t.tasks)
    (questions : List.Forall₂ QuestionRecord.Moves s.questions t.questions) :
    Change s.work t.work := by
  have heffects : t.work.effects = s.work.effects := effects
  have hdeliveries : t.work.deliveries = s.work.deliveries := deliveries
  refine .moved (.inl outcome) results tasks ?_ ?_ ?_ questions
  · rw [heffects]
    exact forall₂_same.mpr fun effect _ => .refl effect
  · rw [heffects]
    exact fun effect heffect hfinished => .inl ⟨effect, heffect, rfl, hfinished⟩
  · rw [hdeliveries]
    exact forall₂_same.mpr fun delivery _ => .refl delivery

theorem forall₂_questions_refl (questions : List QuestionRecord) :
    List.Forall₂ QuestionRecord.Moves questions questions :=
  forall₂_same.mpr fun question _ => .refl question

/-- A command that only changes one task. -/
theorem change_modifyTask {change : TaskRecord → TaskRecord}
    (h : ∀ task, s.task? id = some task → task.Moves (change task)) :
    Change s.work (s.modifyTask id change).work :=
  change_of_moves rfl rfl rfl rfl (forall₂_modifyTask h) (forall₂_questions_refl _)

/-! ## Turns -/

variable {turn : TaskTurn}

/-- The task of a live turn. -/
theorem exists_of_liveIdentity (h : liveIdentity s turn = .ok ()) :
    ∃ task, s.task? turn.task = some task ∧ s.outcome = .pending ∧ task.state.isClosed = false := by
  simp only [liveIdentity, bind_eq_ok, okOr_eq_ok, refuse_eq_ok] at h
  obtain ⟨task, htask, hlive⟩ := h
  push Not at hlive
  exact ⟨task, htask, hlive.1, by simpa using hlive.2.1⟩

theorem exists_of_liveTurn (h : liveTurn s turn = .ok ()) :
    ∃ task, s.task? turn.task = some task ∧ s.outcome = .pending ∧ task.state.isClosed = false ∧
      task.progress.turnEnded = false := by
  simp only [liveTurn, bind_eq_ok, refuse_eq_ok] at h
  obtain ⟨⟨⟩, hlive, hturn⟩ := h
  obtain ⟨task, htask, hpending, hopen⟩ := exists_of_liveIdentity hlive
  refine ⟨task, htask, hpending, hopen, ?_⟩
  rw [htask] at hturn
  simpa using hturn

theorem change_of_beginTurn (h : beginTurn s envelope turn = .ok t) : s.outcome = .pending ∧ Change s.work t.work := by
  simp only [beginTurn, bind_eq_ok, okOr_eq_ok, refuse_eq_ok] at h
  obtain ⟨task, htask, ⟨⟩, hchecks, _, _, ⟨⟩, _, ⟨⟩⟩ := h
  push Not at hchecks
  obtain ⟨_, hpending, hopen, _⟩ := hchecks
  refine ⟨hpending, change_of_moves rfl rfl rfl rfl (forall₂_modifyTask ?_) (forall₂_questions_refl _)⟩
  intro found hfound
  obtain rfl := Option.some.inj (htask.symm.trans hfound)
  exact moves_working rfl rfl rfl (isCancelledOrDone_of_isClosed (by simpa using hopen)) rfl

theorem change_of_endTurn (h : endTurn s envelope turn = .ok t) : s.outcome = .pending ∧ Change s.work t.work := by
  simp only [endTurn, bind_eq_ok] at h
  obtain ⟨⟨⟩, _, ⟨⟩, hlive, ⟨⟩⟩ := h
  obtain ⟨task, htask, hpending, hopen, _⟩ := exists_of_liveTurn hlive
  refine ⟨hpending, change_modifyTask fun found hfound => ?_⟩
  obtain rfl := Option.some.inj (htask.symm.trans hfound)
  split
  · exact moves_progress rfl rfl rfl rfl (fun _ => rfl) fun h => h
  · exact moves_working rfl rfl rfl (isCancelledOrDone_of_isClosed hopen) rfl

theorem change_of_backgroundWork {count : ℕ} (h : backgroundWork s envelope turn count = .ok t) :
    s.outcome = .pending ∧ Change s.work t.work := by
  simp only [backgroundWork, bind_eq_ok] at h
  obtain ⟨⟨⟩, _, ⟨⟩, hlive, ⟨⟩, _, ⟨⟩⟩ := h
  obtain ⟨_, _, hpending, _⟩ := exists_of_liveIdentity hlive
  exact ⟨hpending, change_modifyTask fun _ _ =>
    moves_progress rfl rfl rfl rfl (fun h => h) fun h => h⟩

theorem change_of_settleExpiredBackground (h : settleExpiredBackground s envelope turn = .ok t) :
    Change s.work t.work := by
  simp only [settleExpiredBackground, bind_eq_ok] at h
  obtain ⟨_, _, ⟨⟩, _, ⟨⟩⟩ := h
  exact change_modifyTask fun _ _ =>
    moves_progress rfl rfl rfl rfl (fun h => h) fun h => h

theorem change_of_recordContext {feedback decisions : List ObjectRef}
    (h : recordContext s id feedback decisions = .ok t) : Change s.work t.work := by
  simp only [recordContext, bind_eq_ok] at h
  obtain ⟨_, _, ⟨⟩, _, ⟨⟩, _, ⟨⟩⟩ := h
  exact change_modifyTask fun _ _ =>
    moves_progress rfl rfl rfl rfl (fun h => h) fun h => h

theorem Work.Change.refl (w : Work) : Change w w :=
  .moved (.inl rfl) rfl (forall₂_tasks_refl _) (forall₂_same.mpr fun effect _ => .refl effect)
    (fun effect heffect hfinished => .inl ⟨effect, heffect, rfl, hfinished⟩)
    (forall₂_same.mpr fun delivery _ => .refl delivery) (forall₂_questions_refl _)

theorem change_of_waitTimeout (h : waitTimeout s id = .ok t) : Change s.work t.work := by
  simp only [waitTimeout, bind_eq_ok] at h
  obtain ⟨_, _, ⟨⟩⟩ := h
  exact .refl _

/-! ## Cancellation -/

variable {parent : TaskId}

/-- A delivery to a task of a cancellation is over. -/
theorem isFinished_of_recipient (hs : Shaped enc s) {ids : Finset TaskId} (hparent : parent ∈ ids)
    {delivery : DeliveryRecord} (hdelivery : delivery ∈ (cancelTasks s ids).deliveries)
    (hrecipient : (cancelTasks s ids).work.HasParent delivery.task parent) :
    delivery.state.isFinished = true := by
  obtain ⟨task, htask, hid, hof⟩ := hrecipient
  obtain ⟨before, hbefore, hwinds⟩ := exists_of_forall₂_right (winds_cancelTasks s ids).tasks htask
  have hparentOf : s.parentOf delivery.task = some parent := by
    rw [← hid, hwinds.id, hs.parentOf_id hbefore, ← hwinds.parent, hof]
  obtain ⟨delivered, _, rfl⟩ := mem_map.mp hdelivery
  by_cases hcancel : (delivered.task ∈ ids ∨ recipientIn s ids delivered = true) ∧ delivered.state.isObserved = false
  · rw [if_pos hcancel]
    rfl
  · rw [if_neg hcancel] at hparentOf ⊢
    have hin : recipientIn s ids delivered = true := by
      rw [recipientIn, hparentOf]
      exact decide_eq_true hparent
    rw [not_and, Bool.not_eq_false] at hcancel
    have hobserved := hcancel (.inr hin)
    cases hstate : delivered.state with
    | observed run => rfl
    | _ => rw [hstate] at hobserved; cases hobserved

/-- An effect that is settled with its generation has nothing left to deliver. -/
theorem idle_or_mem_of_settleGenerations {effect : EffectRecord} (h : effect ∈ (settleGenerations s).effects) :
    (settleGenerations s).work.Idle effect ∨ effect ∈ s.effects := by
  obtain ⟨before, hbefore, rfl⟩ := mem_map.mp h
  simp only
  split
  · next hall =>
    left
    left
    intro delivery hdelivery hwake
    have hfinished := all_eq_true.mp hall.2
    exact hfinished delivery (mem_filter.mpr ⟨hdelivery, by simpa using hwake⟩)
  · exact .inr hbefore

theorem change_of_cancel (hs : Shaped enc s) (h : cancel s id = .ok t) : Change s.work t.work := by
  have w := winds_of_cancel h
  have f := framed_of_cancel h
  obtain ⟨_, rfl⟩ := cancel_eq_ok.mp h
  refine .moved (.inl f.outcome) w.results (w.tasks.imp fun _ _ h => h.moves) w.effects ?_
    (w.deliveries.imp fun _ _ h => h.moves) (w.questions.imp fun _ _ h => h.moves)
  intro effect heffect hfinished
  rcases idle_or_mem_of_settleGenerations heffect with hidle | hmem
  · exact .inr hidle
  · obtain ⟨before, hbefore, rfl⟩ := mem_map.mp hmem
    split
    · next hcancel =>
      -- the effect was disposed of with its task, to which nothing is delivered any more
      exact .inr (.inr fun delivery hdelivery hrecipient =>
        isFinished_of_recipient hs hcancel.1 hdelivery hrecipient)
    · next hcancel =>
      rw [if_neg hcancel] at hfinished
      exact .inl ⟨before, hbefore, rfl, hfinished⟩

theorem change_of_stop (hs : Shaped enc s) (h : stop s = .ok t) : Change s.work t.work := by
  obtain ⟨t', hstop, w, _, houtcome, _, _, htasks, hdeliveries⟩ := exists_stop hs
  obtain rfl := ok.inj (hstop.symm.trans h)
  have hended : t'.work.outcome ≠ .pending := by
    rw [RunProjection.work, houtcome]
    exact RunOutcome.noConfusion
  refine .moved (.inr ⟨hended, htasks⟩) w.results (w.tasks.imp fun _ _ h => h.moves) w.effects ?_
    (w.deliveries.imp fun _ _ h => h.moves) (w.questions.imp fun _ _ h => h.moves)
  exact fun effect _ _ => .inr (.inl fun delivery hdelivery _ => hdeliveries delivery hdelivery)

/-! ## Questions -/

theorem change_of_applyAttention {live : Option RuntimeRequest} {attention : AttentionReference}
    (hnone : request.question? = none)
    (h : applyAttention s envelope live request attention = .ok t) :
    s.outcome = .pending ∧ Change s.work t.work := by
  simp only [applyAttention, bind_eq_ok, okOr_eq_ok] at h
  obtain ⟨⟨⟩, _, turn, _, ⟨⟩, hlive, ⟨⟩, _, ⟨⟩⟩ := h
  obtain ⟨_, _, hpending, _⟩ := exists_of_liveTurn hlive
  refine ⟨hpending, change_of_moves rfl rfl rfl rfl (forall₂_tasks_refl _) ?_⟩
  rw [RunProjection.questions, RunProjection.questions, filterMap_append,
    filterMap_cons_none hnone, filterMap_nil, append_nil]
  exact forall₂_questions_refl _

theorem change_of_applyQuestion (h : applyQuestion s envelope question = .ok t) :
    s.outcome = .pending ∧ Change s.work t.work := by
  simp only [applyQuestion, bind_eq_ok, okOr_eq_ok, refuse_eq_ok] at h
  obtain ⟨⟨⟩, hlive, ⟨⟩, _, _, _, ⟨⟩, hquestion, _, _, ⟨⟩⟩ := h
  push Not at hquestion
  obtain ⟨task, htask, hpending, hopen, hturn⟩ := exists_of_liveTurn hlive
  refine ⟨hpending, .asked question task (mem_of_task? htask) ?_ hopen hturn ?_ ?_⟩
  · rw [id_of_task? htask, hquestion.1]
  · refine forall₂_modifyTask fun found hfound => ?_
    rw [hquestion.1] at hfound
    obtain rfl := Option.some.inj (htask.symm.trans hfound)
    exact moves_working rfl rfl rfl (isCancelledOrDone_of_isClosed hopen) rfl
  · simp [RunProjection.work, RunProjection.questions, RunProjection.modifyTask, question?]

/-- A live question is pending, and so is its run. -/
theorem of_questionLive {id : QuestionId} (h : questionLive s id = .ok question) : s.question? id = some question ∧
      question.status = .pending ∧ liveIdentity s question.origin = .ok () := by
  simp only [questionLive, bind_eq_ok, okOr_eq_ok, refuse_eq_ok, not_not] at h
  obtain ⟨found, hfound, ⟨⟩, hpending, ⟨⟩, hlive, _, _, ⟨⟩⟩ := h
  exact ⟨hfound, hpending, hlive⟩

theorem change_of_applyWake {id : QuestionId} {before after : QuestionWake}
    (h : applyWake s id before after = .ok t) : s.outcome = .pending ∧ Change s.work t.work := by
  simp only [applyWake, bind_eq_ok] at h
  obtain ⟨⟨⟩, _, question, hquestion, ⟨⟩, _, ⟨⟩⟩ := h
  obtain ⟨_, _, hlive⟩ := of_questionLive hquestion
  obtain ⟨_, _, hpending, _⟩ := exists_of_liveIdentity hlive
  exact ⟨hpending, change_of_moves rfl rfl rfl rfl (forall₂_tasks_refl _)
    (forall₂_modifyQuestion fun _ _ => ⟨rfl, rfl, rfl, fun h => h⟩)⟩

/-- The answer to a question that was asked from its own task sets that task to work again. -/
theorem change_of_applyAnswer (hs : Shaped enc s) {id : QuestionId} {answer : ObjectRef}
    (h : applyAnswer s envelope id answer = .ok t) : s.outcome = .pending ∧ Change s.work t.work := by
  simp only [applyAnswer, bind_eq_ok, okOr_eq_ok] at h
  obtain ⟨question, hquestion, found, _, turn, _, ⟨⟩, _, ⟨⟩, _, ⟨⟩, _, _, _, ⟨⟩⟩ := h
  obtain ⟨hfind, hstatus, hlive⟩ := of_questionLive hquestion
  obtain ⟨task, htask, hpending, hopen⟩ := exists_of_liveIdentity hlive
  rw [← (hs.questionTasks question (mem_of_find?_eq_some hfind)).1] at htask
  refine ⟨hpending, change_of_moves rfl rfl rfl rfl ?_ ?_⟩
  · -- the decision of the director is recorded before the task goes on
    have hdecide := @forall₂_modifyTask s found.id
      (fun task => { task with progress := { task.progress with decisions := task.progress.decisions ++ [answer] } })
      fun _ _ => moves_progress rfl rfl rfl rfl (fun h => h) fun h => h
    refine List.forall₂_trans (fun _ _ _ => .trans) hdecide (forall₂_modifyFirst Moves.refl fun b hb => ?_)
    obtain ⟨a, ha, hmoves, hstate⟩ : ∃ a ∈ s.tasks, b.id = a.id ∧ b.state = a.state := by
      rcases mem_modifyFirst (mem_of_find?_eq_some hb) with h | ⟨a, ha, _, rfl⟩
      · exact ⟨b, h, rfl, rfl⟩
      · exact ⟨a, ha, rfl, rfl⟩
    have hid : b.id = question.task := by simpa using find?_some hb
    obtain rfl := hs.task_ext ha (mem_of_task? htask) (hmoves.symm.trans (hid.trans (id_of_task? htask).symm))
    exact moves_working rfl rfl rfl (isCancelledOrDone_of_isClosed (hstate ▸ hopen)) rfl
  · exact forall₂_modifyQuestion fun _ _ => ⟨rfl, rfl, rfl, fun h => by cases h⟩

theorem change_of_applyExpire {session : SessionId} (h : applyExpire s session = .ok t) : Change s.work t.work := by
  simp only [applyExpire, bind_eq_ok] at h
  obtain ⟨⟨⟩, _, ⟨⟩⟩ := h
  refine change_of_moves rfl rfl rfl rfl (forall₂_map_self fun task _ => ?_) ?_
  · unfold expire
    split
    · next hin => exact moves_working rfl rfl rfl hin.2 rfl
    · exact .refl task
  · refine forall₂_questions
      (P := fun a b => Option.Rel QuestionRecord.Moves a.question? b.question?) (fun _ _ h => h)
      (forall₂_map_self fun request _ => rel_mapQuestion fun question _ => ?_)
    unfold QuestionRecord.expire
    split
    · exact ⟨rfl, rfl, rfl, fun h => by cases h⟩
    · exact .refl question

/-! ## Deliveries -/

variable {attempt : AttemptId}

theorem change_of_offerDeliveries (h : offerDeliveries s parent attempt = .ok t) :
    s.outcome = .pending ∧ Change s.work t.work := by
  simp only [offerDeliveries, bind_eq_ok, refuse_eq_ok] at h
  obtain ⟨⟨⟩, hchecks, ⟨⟩⟩ := h
  push Not at hchecks
  refine ⟨hchecks.1, .moved (.inl rfl) rfl (forall₂_tasks_refl _) (forall₂_same.mpr fun effect _ => .refl effect)
    (fun effect heffect hfinished => .inl ⟨effect, heffect, rfl, hfinished⟩)
    (forall₂_map_self fun delivery _ => ?_) (forall₂_questions_refl _)⟩
  unfold DeliveryRecord.offer
  split
  · next hopen => exact ⟨rfl, rfl, rfl, rfl, rfl, rfl, .offer hopen.2 attempt delivery.message⟩
  · exact .refl delivery

theorem change_of_observeDelivery {id : DeliveryId} (h : observeDelivery s envelope id = .ok t) :
    s.outcome = .pending ∧ Change s.work t.work := by
  simp only [observeDelivery, bind_eq_ok, okOr_eq_ok, refuse_eq_ok] at h
  obtain ⟨delivery, hdelivery, parent, _, turn, _, ⟨⟩, hlive, ⟨⟩, hchecks, ⟨⟩⟩ := h
  push Not at hchecks
  obtain ⟨_, _, hpending, _⟩ := exists_of_liveTurn hlive
  have w := winds_settleGenerations { s with
    deliveries := s.deliveries.modifyFirst (fun delivery => delivery.id = id) fun delivery =>
      { delivery with state := .observed s.run } }
  refine ⟨hpending, .moved (.inl rfl) rfl (forall₂_tasks_refl _) w.effects ?_ ?_ (forall₂_questions_refl _)⟩
  · intro effect heffect hfinished
    rcases idle_or_mem_of_settleGenerations heffect with hidle | hmem
    · exact .inr hidle
    · exact .inl ⟨effect, hmem, rfl, hfinished⟩
  · refine forall₂_modifyFirst DeliveryRecord.Moves.refl fun found hfound => ?_
    obtain rfl := Option.some.inj (hdelivery.symm.trans hfound)
    refine ⟨rfl, rfl, rfl, rfl, rfl, rfl, ?_⟩
    rw [hchecks.2]
    exact .observe _ _ _

/-! ## New effects -/

theorem order_lt_of_nextOrder {lane : BranchId} {order : ℕ} (h : nextOrder s lane = .ok order) :
    ∀ other ∈ s.effects, other.lane = lane → other.order < order := by
  intro other hother hlane
  unfold nextOrder checkedSucc at h
  split at h
  · obtain rfl := ok.inj h
    refine Nat.lt_succ_of_le (le_foldl_max (.inr ?_))
    exact mem_map.mpr ⟨other, mem_filter.mpr ⟨hother, by simpa using hlane⟩, rfl⟩
  · cases h

theorem change_of_sendMessage {text : ObjectRef} (h : sendMessage enc s envelope text = .ok t) :
    Change s.work t.work := by
  simp only [sendMessage, bind_eq_ok] at h
  obtain ⟨task, _, order, horder, ⟨⟩⟩ := h
  exact .messaged _ ⟨rfl, order_lt_of_nextOrder horder⟩ rfl

/-! ## Tasks that are assigned, frozen and published -/

variable {task : TaskRecord}

theorem ready_of_ready (htask : s.task? task.id = some task) (h : ready s task.id = true) : s.work.Ready task := by
  rw [ready, htask] at h
  simp only [Bool.and_eq_true, Bool.not_eq_true', decide_eq_true_eq, Option.any_eq_true,
    all_eq_true, any_eq_false, mem_filter, not_and] at h
  obtain ⟨⟨⟨⟨⟨⟨hended, hexpired⟩, turn, hturn, hwork⟩, hbackground⟩, hopen⟩, hchildren⟩,
    hquestions⟩ := h
  exact ⟨hended, hexpired, ⟨turn, hturn, hwork⟩, hbackground, hopen,
    fun child hchild hparent => (hchildren child ⟨hchild, hparent⟩).1, hquestions⟩

theorem sets_modifyTask (hs : Shaped enc s) (htask : task ∈ s.tasks) (state : TaskState) :
    List.Forall₂ (fun a b => a ≠ task ∧ b = a ∨ a = task ∧ b = { a with state := state }) s.tasks
      (s.modifyTask task.id fun task => { task with state := state }).tasks := by
  refine forall₂_imp_of_mem (fun a ha b hab => ?_) (forall₂_modifyFirst_key hs.taskIds task.id _)
  rcases hab with ⟨hid, rfl⟩ | ⟨hid, rfl⟩
  · exact .inl ⟨fun h => hid (congrArg TaskRecord.id h), rfl⟩
  · exact .inr ⟨hs.task_ext ha htask hid, rfl⟩

theorem change_of_assign {assignment : AssignTask} {transition : TaskTransition}
    (hdecide : decideAssign s assignment = .ok transition)
    (h : applyTaskTransition enc s envelope transition = .ok t) :
    s.outcome = .pending ∧ Change s.work t.work := by
  simp only [decideAssign, bind_eq_ok, okOr_eq_ok, refuse_eq_ok] at hdecide
  obtain ⟨⟨⟩, _, parent, hparent, ⟨⟩, hstate, ⟨⟩, _, ⟨⟩, _, ⟨⟩, _, ⟨⟩, hfree, ⟨⟩⟩ := hdecide
  push Not at hstate hfree
  simp only [applyTaskTransition, bind_eq_ok] at h
  obtain ⟨order, horder, ⟨⟩⟩ := h
  refine ⟨hstate.2.2.2.2, .assigned (assignedTask enc envelope assignment) _ parent
    (mem_of_task? hparent) ?_ ⟨hstate.2.2.1, by simpa using hstate.2.2.2.1⟩ rfl ?_
    ⟨rfl, order_lt_of_nextOrder horder⟩ rfl⟩
  · rw [id_of_task? hparent]
    rfl
  · intro hrole other hother
    exact eq_false_of_ne_true (hfree hrole other hother)

theorem change_of_freeze (hs : Shaped enc s) {transition : TaskTransition}
    (hdecide : decideFreeze s id = .ok transition)
    (h : applyTaskTransition enc s envelope transition = .ok t) : Change s.work t.work ∧
      ∃ task ∈ s.tasks, task.state.isClosed = false := by
  simp only [decideFreeze, bind_eq_ok, okOr_eq_ok, refuse_eq_ok] at hdecide
  obtain ⟨task, htask, ⟨⟩, hready, ⟨⟩⟩ := hdecide
  push Not at hready
  simp only [applyTaskTransition, bind_eq_ok] at h
  obtain ⟨_, _, ⟨⟩⟩ := h
  obtain rfl := id_of_task? htask
  have hr : s.work.Ready task := ready_of_ready htask (by simpa using hready.1)
  refine ⟨.frozen task (mem_of_task? htask) hr ?_ rfl, task, mem_of_task? htask, hr.isOpen⟩
  exact sets_modifyTask hs (mem_of_task? htask) .freezing

theorem work_refreshWait (s : RunProjection) : (refreshWait s).work = s.work := by
  obtain ⟨wait, hwait⟩ := exists_refreshWait s
  rw [hwait]
  rfl

/-- The deliveries to a parent are those of the tasks that have it. -/
theorem mem_siblings {delivery : DeliveryRecord} : delivery ∈ siblings s (some parent) ↔
      delivery ∈ s.deliveries ∧ s.work.HasParent delivery.task parent := by
  simp only [siblings, mem_filter, any_eq_true, Bool.and_eq_true, decide_eq_true_eq]
  rfl

theorem delivers_of_publish {result : ObjectRef} (hparent : task.parent = some parent)
    {generation : ℕ} (hgeneration : resultGeneration s task.parent = .ok generation)
    {wake : List EffectRecord} (hwake : resultWake enc s envelope task result = .ok wake) :
    s.work.Delivers task (resultDelivery enc s envelope task result generation) wake := by
  unfold resultGeneration at hgeneration
  simp only [resultWake, hparent] at hwake hgeneration
  rcases hcoalesced : coalesced s (some parent) with _ | pending
  · simp only [hcoalesced, Option.isSome_none, Bool.false_eq_true, if_false, bind_eq_ok,
      okOr_eq_ok] at hwake hgeneration
    obtain ⟨found, hfound, order, horder, ⟨⟩⟩ := hwake
    refine .opened hparent ?_ ?_ ?_ (id_of_task? hfound) ⟨rfl, order_lt_of_nextOrder horder⟩
    · intro other hother hsibling
      have hnone := find?_eq_none.mp hcoalesced other (mem_siblings.mpr ⟨hother, hsibling⟩)
      simpa using hnone
    · intro other hother hsibling
      unfold checkedSucc at hgeneration
      split at hgeneration
      · obtain rfl := ok.inj hgeneration
        refine Nat.lt_succ_of_le (le_foldl_max (.inr ?_))
        exact mem_map.mpr ⟨other, mem_siblings.mpr ⟨hother, hsibling⟩, rfl⟩
      · cases hgeneration
    · simp [resultDelivery, hparent, hcoalesced, wakeEffect]
  · simp only [hcoalesced, Option.isSome_some, if_true] at hwake hgeneration
    obtain rfl := ok.inj hwake
    obtain rfl := ok.inj hgeneration
    obtain ⟨hpending, hsibling⟩ := mem_siblings.mp (mem_of_find?_eq_some hcoalesced)
    have hstate : pending.state = .pending := by simpa using find?_some hcoalesced
    refine .coalesced hpending hstate hparent hsibling rfl ?_ ?_
    all_goals simp [resultDelivery, hparent, hcoalesced]

theorem change_of_publishResult (hs : Shaped enc s) {published : TaskResult} {result : ObjectRef}
    (h : publishResult enc s envelope id published result = .ok t) :
    s.outcome = .pending ∧ Change s.work t.work := by
  simp only [publishResult, requirePublishable, bind_eq_ok, okOr_eq_ok, refuse_eq_ok] at h
  obtain ⟨⟨⟩, _, task, htask, ⟨⟩, hpublishable, ⟨⟩, _, ⟨⟩, _, ⟨⟩, _, generation, hgeneration, wake,
    hwake, ⟨⟩⟩ := h
  push Not at hpublishable
  obtain ⟨hready, hpending, hfreezing⟩ := hpublishable
  obtain rfl := id_of_task? htask
  rw [work_refreshWait]
  refine ⟨hpending, .published task result (mem_of_task? htask) (ready_of_ready htask (by simpa using hready)) hfreezing
    (sets_modifyTask hs (mem_of_task? htask) (.terminal result)) _ wake ?_ rfl⟩
  rcases hparent : task.parent with _ | parent
  · simp only [resultWake, hparent] at hwake
    exact .inl ⟨rfl, rfl, (ok.inj hwake).symm⟩
  · exact .inr ⟨_, rfl, delivers_of_publish hparent hgeneration hwake, rfl, rfl, rfl⟩

/-! ## The host -/

theorem sets_setEffect (hids : (s.effects.map EffectRecord.id).Nodup) {effect : EffectRecord}
    {id : EffectId} (heffect : findEffect s id = .ok effect) (state : EffectState) :
    effect ∈ s.effects ∧ effect.id = id ∧
      List.Forall₂ (fun a b => a.id ≠ id ∧ b = a ∨ a.id = id ∧ b = { a with state := state })
        s.effects (s.setEffect id state).effects := by
  have hfind := okOr_eq_ok.mp heffect
  have hmem := mem_of_find?_eq_some hfind
  have hid : effect.id = id := by simpa using find?_some hfind
  exact ⟨hmem, hid, forall₂_modifyFirst_key hids id _⟩

/-- The effect that the host may take from a lane waits, and comes before all others of the lane. -/
theorem leads_of_nextEffect {lane : BranchId} {first : EffectRecord}
    (h : nextEffect s lane = some first) : first ∈ s.effects ∧ first.state = .pending ∧
      ∀ other ∈ s.effects, other.lane = lane → other.state.isFinished = false → first.order ≤ other.order := by
  unfold nextEffect at h
  split at h
  · cases h
  · obtain ⟨hargmin, hpending⟩ := Option.filter_eq_some_iff.mp h
    have hunfinished := mem_filter.mp (argmin_mem hargmin)
    refine ⟨hunfinished.1, by simpa using hpending, fun other hother hlane hopen => ?_⟩
    refine le_of_mem_argmin (mem_filter.mpr ⟨hother, ?_⟩) hargmin
    simp [hlane, hopen]

section

variable (hs : s.work.Formed)

include hs

theorem leads_of_claim {id : EffectId} (h : claim s id attempt = .ok t) : ∃ effect, findEffect s id = .ok effect ∧
      effect ∈ s.effects ∧ effect.id = id ∧ effect.state = .pending ∧
      (∀ other ∈ s.effects, other.lane = effect.lane → other.state.isFinished = false →
        effect.order ≤ other.order) ∧ t = s.setEffect id (.claimed attempt) := by
  simp only [claim, bind_eq_ok, refuse_eq_ok, not_not] at h
  obtain ⟨effect, heffect, ⟨⟩, hnext, ⟨⟩⟩ := h
  obtain ⟨hmem, hid, _⟩ := sets_setEffect hs.effectIds heffect (.claimed attempt)
  obtain ⟨first, hfirst, hfirstId⟩ := Option.map_eq_some_iff.mp hnext
  obtain ⟨hfirstMem, hpending, hleads⟩ := leads_of_nextEffect hfirst
  obtain rfl : first = effect := inj_on_of_nodup_map hs.effectIds hfirstMem hmem (hfirstId.trans hid.symm)
  exact ⟨first, heffect, hmem, hid, hpending, hleads, rfl⟩

theorem change_of_claim {id : EffectId} (h : claim s id attempt = .ok t) :
    (∃ state, t = s.setEffect id state) ∧ Change s.work t.work := by
  obtain ⟨effect, heffect, hmem, hid, hpending, hleads, rfl⟩ := leads_of_claim hs h
  obtain ⟨_, _, hsets⟩ := sets_setEffect hs.effectIds heffect (.claimed attempt)
  exact ⟨⟨_, rfl⟩, .hosted id (.claimed attempt)
    (.inr (.inr ⟨attempt, rfl, effect, hmem, hid, hpending, hleads⟩)) hsets rfl⟩

theorem change_of_outcomeUnknown {id : EffectId} (h : outcomeUnknown s id attempt = .ok t) :
    (∃ state, t = s.setEffect id state) ∧ Change s.work t.work := by
  simp only [outcomeUnknown, bind_eq_ok, refuse_eq_ok, not_not] at h
  obtain ⟨effect, heffect, ⟨⟩, hclaimed, ⟨⟩⟩ := h
  obtain ⟨hmem, hid, hsets⟩ := sets_setEffect hs.effectIds heffect .outcomeUnknown
  exact ⟨⟨_, rfl⟩, .hosted id .outcomeUnknown (.inr (.inl ⟨rfl, effect, hmem, attempt, hid, hclaimed⟩)) hsets rfl⟩

theorem change_of_retryReconciledSafe {id : EffectId} (h : retryReconciledSafe s id = .ok t) :
    (∃ state, t = s.setEffect id state) ∧ Change s.work t.work := by
  simp only [retryReconciledSafe, bind_eq_ok, refuse_eq_ok] at h
  obtain ⟨effect, heffect, ⟨⟩, hchecks, ⟨⟩⟩ := h
  push Not at hchecks
  obtain ⟨hmem, hid, hsets⟩ := sets_setEffect hs.effectIds heffect .pending
  exact ⟨⟨_, rfl⟩, .hosted id .pending (.inl ⟨rfl, effect, hmem, hid, hchecks.1⟩) hsets rfl⟩

end

end Kinewright.Orchestration
