import Kinewright.Orchestration.Ending
import Kinewright.Orchestration.Runs

/-!
# The life of a task

A task that has ended stays as it is, one that is being cancelled can only be cancelled, and only a frozen
task whose last turn was for work and has ended is published. A frozen task has nothing left below it, and
no two delegated tasks work on one branch.
-/

namespace Kinewright.Orchestration

open Fallible Accounting List
open Work (Change)

variable {enc : Encoding} {s t : RunProjection} {w w' : Work}

/-! ## How a task changes -/

/-- The task is frozen or its result is published. -/
def TaskState.isSealed : TaskState → Bool
  | .freezing | .terminal _ => true
  | _ => false

/-- How a task changes in one step. -/
inductive TaskRecord.Becomes (w : Work) (a b : TaskRecord) : Prop
  | moves (h : a.Moves b)
  | frozen (hready : w.Ready a) (h : b = { a with state := .freezing })
  | published (result : ObjectRef) (hready : w.Ready a) (hfreezing : a.state = .freezing)
      (h : b = { a with state := .terminal result })

/-- A new task, whose parent was open and whose branch was free. -/
structure Work.Assigns (w : Work) (task parent : TaskRecord) : Prop where
  mem : parent ∈ w.tasks
  ofParent : task.parent = some parent.id
  notFreezing : parent.state ≠ .freezing
  isOpen : parent.state.isClosed = false
  queued : task.state = .queued
  free : task.brief.role ≠ .reviewer → ∀ other ∈ w.tasks, other.occupies task.brief.branch = false

theorem Work.Sets.becomes {task : TaskRecord} {state : TaskState} (h : w.Sets w' task state)
    (hbecomes : task.Becomes w { task with state := state }) :
    List.Forall₂ (TaskRecord.Becomes w) w.tasks w'.tasks := by
  refine Forall₂.imp (fun a b hab => ?_) h
  rcases hab with ⟨_, rfl⟩ | ⟨rfl, rfl⟩
  · exact .moves (.refl _)
  · exact hbecomes

/-- What a change does to the tasks. -/
theorem Work.Change.tasks_cases (h : Change w w') : List.Forall₂ (TaskRecord.Becomes w) w.tasks w'.tasks ∨
      ∃ task parent, w'.tasks = w.tasks ++ [task] ∧ w.Assigns task parent := by
  have hsame : List.Forall₂ (TaskRecord.Becomes w) w.tasks w.tasks :=
    forall₂_same.mpr fun task _ => .moves (.refl task)
  cases h with
  | moved outcome results tasks | asked question task htask hid hopen hturn tasks =>
    exact .inl (tasks.imp fun _ _ h => .moves h)
  | frozen task htask hready tasks => exact .inl (tasks.becomes (.frozen hready rfl))
  | assigned task effect parent hparent hof hopen hqueued hfree happends rest =>
    exact .inr ⟨task, parent, by rw [rest], hparent, hof, hopen.1, hopen.2, hqueued, hfree⟩
  | messaged effect happends rest | hosted id state hstate effects rest =>
    exact .inl (by rw [rest]; exact hsame)
  | published task result htask hready hfreezing tasks =>
    exact .inl (tasks.becomes (.published result hready hfreezing rfl))

/-- What a change does to the questions. -/
theorem Work.Change.questions_cases (h : Change w w') : List.Forall₂ QuestionRecord.Moves w.questions w'.questions ∨
      ∃ question task, w'.questions = w.questions ++ [question] ∧ task ∈ w.tasks ∧
        task.id = question.task ∧ task.state.isClosed = false ∧ task.progress.turnEnded = false ∧
        List.Forall₂ TaskRecord.Moves w.tasks w'.tasks := by
  have hsame : List.Forall₂ QuestionRecord.Moves w.questions w.questions := forall₂_questions_refl _
  cases h with
  | moved outcome results tasks effects idle deliveries questions => exact .inl questions
  | asked question task htask hid hopen hturn tasks rest =>
    exact .inr ⟨question, task, by rw [rest], htask, hid, hopen, hturn, tasks⟩
  | frozen task htask hready tasks rest
  | assigned task effect parent hparent hof hopen hqueued hfree happends rest
  | messaged effect happends rest
  | published task result htask hready hfreezing tasks deliveries effects hdeliveries rest
  | hosted id state hstate effects rest => exact .inl (by rw [rest]; exact hsame)

namespace TaskRecord.Becomes

variable {a b : TaskRecord}

theorem id (h : a.Becomes w b) : b.id = a.id := by
  cases h with
  | moves h => exact h.id
  | frozen _ h => rw [h]
  | published _ _ _ h => rw [h]

theorem parent (h : a.Becomes w b) : b.parent = a.parent := by
  cases h with
  | moves h => exact h.parent
  | frozen _ h => rw [h]
  | published _ _ _ h => rw [h]

theorem brief (h : a.Becomes w b) : b.brief = a.brief := by
  cases h with
  | moves h => exact h.brief
  | frozen _ h => rw [h]
  | published _ _ _ h => rw [h]

/-- A task that is ready has not ended. -/
theorem isDone_of_ready (h : w.Ready a) : a.state.isDone = false := by
  have hopen := h.isOpen
  cases hstate : a.state with
  | terminal result | cancelled => rw [hstate] at hopen; cases hopen
  | _ => rfl

theorem done (h : a.Becomes w b) (ha : a.state.isDone = true) : b.state = a.state := by
  cases h with
  | moves h => exact h.done ha
  | frozen hready | published _ hready => rw [isDone_of_ready hready] at ha; cases ha

/-- A task that is sealed was so before, or was ready. -/
theorem sealed (h : a.Becomes w b) (hb : b.state.isSealed = true) : a.state.isSealed = true ∨ w.Ready a := by
  cases h with
  | moves h =>
    left
    cases hstate : b.state with
    | freezing => rw [(h.freezing hstate).1]; rfl
    | terminal result => rw [h.terminal result hstate]; rfl
    | _ => rw [hstate] at hb; cases hb
  | frozen hready | published _ hready => exact .inr hready

theorem occupies (h : a.Becomes w b) {branch : BranchId} (hb : b.occupies branch = true) :
    a.occupies branch = true := by
  unfold TaskRecord.occupies at hb ⊢
  rw [h.parent, h.brief] at hb
  simp only [Bool.and_eq_true, Bool.not_eq_true'] at hb ⊢
  obtain ⟨⟨hdelegated, hopen⟩, hbranch⟩ := hb
  refine ⟨⟨hdelegated, ?_⟩, hbranch⟩
  rw [← Bool.not_eq_true]
  intro hdone
  rw [h.done hdone, hdone] at hopen
  cases hopen

end TaskRecord.Becomes

/-! ## What holds of the tasks of a run -/

/-- What holds of the tasks of a run at any time. -/
structure Work.Safe (w : Work) : Prop where
  /-- The turn of a frozen task has ended, and did not expire. -/
  ended : ∀ task ∈ w.tasks, task.state = .freezing → task.progress.turnEnded = true ∧ task.progress.expired = false
  /-- A task that is frozen or published has no child that works. -/
  children : ∀ task ∈ w.tasks, task.state.isSealed = true → ∀ child ∈ w.tasks,
    child.parent = some task.id → child.state.isDone = true
  /-- It has no question that is pending. -/
  questions : ∀ task ∈ w.tasks, task.state.isSealed = true → ∀ question ∈ w.questions,
    question.task = task.id → question.status ≠ .pending
  /-- No two delegated tasks that change things work on one branch. -/
  branches : ∀ task ∈ w.tasks, ∀ other ∈ w.tasks, ∀ branch, task.occupies branch = true →
    other.occupies branch = true → task = other
  /-- No task is blocked in its cleanup, which is for the attempts. -/
  unblocked : ∀ task ∈ w.tasks, ∀ identity, task.state ≠ .cleanupBlocked identity

theorem Work.IsFirst.safe (h : w.IsFirst) : w.Safe := by
  obtain ⟨task, effect, _, hqueued, _, rfl⟩ := h
  constructor
  · simp [hqueued]
  · simp [hqueued, TaskState.isSealed]
  · simp
  · intro a ha b hb _ _ _
    rw [mem_singleton.mp ha, mem_singleton.mp hb]
  · simp [hqueued]

/-- A task that will be sealed has no child that works and no question that is pending. -/
theorem sealed_of_becomes (hsafe : w.Safe) {a b : TaskRecord} (ha : a ∈ w.tasks)
    (h : a.Becomes w b) (hb : b.state.isSealed = true) :
    (∀ child ∈ w.tasks, child.parent = some a.id → child.state.isDone = true) ∧
      ∀ question ∈ w.questions, question.task = a.id → question.status ≠ .pending := by
  rcases h.sealed hb with hsealed | hready
  · exact ⟨hsafe.children a ha hsealed, hsafe.questions a ha hsealed⟩
  · exact ⟨hready.children, hready.questions⟩

/-- The parent of a new task is not sealed. -/
theorem not_sealed_of_assigns (hw : w.Formed) {task parent : TaskRecord} (h : w.Assigns task parent)
    {a : TaskRecord} (ha : a ∈ w.tasks) (hparent : task.parent = some a.id) :
    a.state.isSealed = false := by
  obtain rfl : parent = a := hw.task_ext h.mem ha (Option.some.inj (h.ofParent.symm.trans hparent))
  have hopen := h.isOpen
  have hfreezing := h.notFreezing
  cases hstate : parent.state with
  | freezing => exact absurd hstate hfreezing
  | terminal result => rw [hstate] at hopen; cases hopen
  | _ => rfl

section Step

variable (hw : w.Formed) (hw' : w'.Formed) (hsafe : w.Safe) (hchange : Change w w')

include hsafe hchange

theorem Work.Safe.ended_step : ∀ task ∈ w'.tasks, task.state = .freezing →
    task.progress.turnEnded = true ∧ task.progress.expired = false := by
  intro b hb hfreezing
  rcases hchange.tasks_cases with htasks | ⟨task, parent, htasks, hassign⟩
  · obtain ⟨a, ha, hbecomes⟩ := exists_of_forall₂_right htasks hb
    cases hbecomes with
    | moves h =>
      obtain ⟨hfreezing, hended, hexpired⟩ := h.freezing hfreezing
      have hbefore := hsafe.ended a ha hfreezing
      exact ⟨hended hbefore.1, hexpired hbefore.2⟩
    | frozen hready h =>
      rw [h]
      exact ⟨hready.turnEnded, hready.unexpired⟩
    | published result _ _ h =>
      rw [h] at hfreezing
      cases hfreezing
  · rw [htasks] at hb
    rcases mem_append.mp hb with hb | hb
    · exact hsafe.ended b hb hfreezing
    · rw [mem_singleton.mp hb, hassign.queued] at hfreezing
      cases hfreezing

include hw in
theorem Work.Safe.children_step : ∀ task ∈ w'.tasks, task.state.isSealed = true →
    ∀ child ∈ w'.tasks, child.parent = some task.id → child.state.isDone = true := by
  intro b hb hsealed d hd hparent
  rcases hchange.tasks_cases with htasks | ⟨task, parent, htasks, hassign⟩
  · obtain ⟨a, ha, hab⟩ := exists_of_forall₂_right htasks hb
    obtain ⟨c, hc, hcd⟩ := exists_of_forall₂_right htasks hd
    rw [hab.id, hcd.parent] at hparent
    have hdone := (sealed_of_becomes hsafe ha hab hsealed).1 c hc hparent
    rw [hcd.done hdone]
    exact hdone
  · rw [htasks] at hb hd
    rcases mem_append.mp hb with hb | hb
    · rcases mem_append.mp hd with hd | hd
      · exact hsafe.children b hb hsealed d hd hparent
      · -- the new task has an open parent, which is not sealed
        rw [mem_singleton.mp hd] at hparent
        rw [not_sealed_of_assigns hw hassign hb hparent] at hsealed
        cases hsealed
    · rw [mem_singleton.mp hb, hassign.queued] at hsealed
      cases hsealed

include hw in
theorem Work.Safe.questions_step : ∀ task ∈ w'.tasks, task.state.isSealed = true →
    ∀ question ∈ w'.questions, question.task = task.id → question.status ≠ .pending := by
  intro b hb hsealed r hr htask hpending
  rcases hchange.questions_cases with hquestions | ⟨new, asking, hquestions, hasking, hid, hopen, hturn, hmoves⟩
  · obtain ⟨q, hq, hqr⟩ := exists_of_forall₂_right hquestions hr
    have hpending := hqr.status hpending
    rw [hqr.task] at htask
    rcases hchange.tasks_cases with htasks | ⟨task, parent, htasks, hassign⟩
    · obtain ⟨a, ha, hab⟩ := exists_of_forall₂_right htasks hb
      exact (sealed_of_becomes hsafe ha hab hsealed).2 q hq (htask.trans hab.id) hpending
    · rw [htasks] at hb
      rcases mem_append.mp hb with hb | hb
      · exact hsafe.questions b hb hsealed q hq htask hpending
      · rw [mem_singleton.mp hb, hassign.queued] at hsealed
        cases hsealed
  · obtain ⟨a, ha, hab⟩ := exists_of_forall₂_right hmoves hb
    have hsealed : a.state.isSealed = true := by
      rcases hstate : b.state with _ | _ | _ | _ | _ | _ | _ | _ | result | _
      case freezing => rw [(hab.freezing hstate).1]; rfl
      case terminal => rw [hab.terminal result hstate]; rfl
      all_goals rw [hstate] at hsealed; cases hsealed
    rw [hquestions] at hr
    rcases mem_append.mp hr with hr | hr
    · exact hsafe.questions a ha hsealed r hr (htask.trans hab.id) hpending
    · -- a task that asks is in its turn, so it is not sealed
      rw [mem_singleton.mp hr] at htask
      obtain rfl : asking = a := hw.task_ext hasking ha (hid.trans (htask.trans hab.id))
      cases hstate : asking.state with
      | freezing =>
        rw [(hsafe.ended asking hasking hstate).1] at hturn
        cases hturn
      | terminal result => rw [hstate] at hopen; cases hopen
      | _ => rw [hstate] at hsealed; cases hsealed

include hw' in
theorem Work.Safe.branches_step : ∀ task ∈ w'.tasks, ∀ other ∈ w'.tasks, ∀ branch,
    task.occupies branch = true → other.occupies branch = true → task = other := by
  intro b hb d hd branch hbranch hother
  apply hw'.task_ext hb hd
  rcases hchange.tasks_cases with htasks | ⟨task, parent, htasks, hassign⟩
  · obtain ⟨a, ha, hab⟩ := exists_of_forall₂_right htasks hb
    obtain ⟨c, hc, hcd⟩ := exists_of_forall₂_right htasks hd
    rw [hab.id, hcd.id, hsafe.branches a ha c hc branch (hab.occupies hbranch) (hcd.occupies hother)]
  · -- the branch of a new task that changes things was free
    have hfree {a b : TaskRecord} (ha : a ∈ w.tasks) (hb : b = task)
        (hbefore : a.occupies branch = true) (hnew : b.occupies branch = true) : False := by
      subst hb
      unfold TaskRecord.occupies at hnew
      simp only [Bool.and_eq_true, decide_eq_true_eq] at hnew
      obtain ⟨⟨⟨_, hrole⟩, _⟩, rfl⟩ := hnew
      rw [hassign.free hrole a ha] at hbefore
      cases hbefore
    rw [htasks] at hb hd
    rcases mem_append.mp hb with hb | hb
    · rcases mem_append.mp hd with hd | hd
      · rw [hsafe.branches b hb d hd branch hbranch hother]
      · exact absurd (hfree hb (mem_singleton.mp hd) hbranch hother) id
    · rcases mem_append.mp hd with hd | hd
      · exact absurd (hfree hd (mem_singleton.mp hb) hother hbranch) id
      · rw [mem_singleton.mp hb, mem_singleton.mp hd]

theorem Work.Safe.unblocked_step : ∀ task ∈ w'.tasks, ∀ identity, task.state ≠ .cleanupBlocked identity := by
  intro b hb identity hblocked
  rcases hchange.tasks_cases with htasks | ⟨task, parent, htasks, hassign⟩
  · obtain ⟨a, ha, hab⟩ := exists_of_forall₂_right htasks hb
    cases hab with
    | moves h => exact hsafe.unblocked a ha identity (h.blocked identity hblocked)
    | frozen _ h | published _ _ _ h => rw [h] at hblocked; cases hblocked
  · rw [htasks] at hb
    rcases mem_append.mp hb with hb | hb
    · exact hsafe.unblocked b hb identity hblocked
    · rw [mem_singleton.mp hb, hassign.queued] at hblocked
      cases hblocked

include hw hw' in
theorem Work.Safe.step : w'.Safe where
  ended := hsafe.ended_step hchange
  children := hsafe.children_step hw hchange
  questions := hsafe.questions_step hw hchange
  branches := hsafe.branches_step hw' hchange
  unblocked := hsafe.unblocked_step hchange

end Step

/-! ## The life of a task -/

/-- What a step may do to a task. -/
structure TaskRecord.Lives (a b : TaskRecord) : Prop where
  id : b.id = a.id
  /-- A task that has ended stays as it is. -/
  done : a.state.isDone = true → b.state = a.state
  /-- One that is being cancelled can only be cancelled. -/
  cancelling : a.state = .cancelling → b.state = .cancelling ∨ b.state = .cancelled
  /-- One that is blocked in its cleanup can only be cancelled. -/
  blocked : ∀ identity, a.state = .cleanupBlocked identity →
    b.state = a.state ∨ b.state = .cancelling ∨ b.state = .cancelled
  /-- Only a frozen task whose last turn was for work and has ended is published. -/
  terminal : ∀ result, b.state = .terminal result → a.state = .terminal result ∨
    a.state = .freezing ∧ a.progress.turnEnded = true ∧ a.progress.expired = false ∧
      (∃ turn ∈ a.progress.turn, turn.purpose = .work) ∧ a.progress.background = 0

theorem TaskRecord.Becomes.lives {a b : TaskRecord} (ha : a ∈ w.tasks) (hsafe : w.Safe)
    (h : a.Becomes w b) : a.Lives b where
  id := h.id
  done := h.done
  cancelling hcancelling := by
    have hnot (hready : w.Ready a) : False := by
      have hopen := hready.isOpen
      rw [hcancelling] at hopen
      cases hopen
    cases h with
    | moves h => exact h.cancelling hcancelling
    | frozen hready | published _ hready => exact (hnot hready).elim
  blocked identity hblocked := absurd hblocked (hsafe.unblocked a ha identity)
  terminal result hb := by
    cases h with
    | moves h => exact .inl (h.terminal result hb)
    | frozen _ h => rw [h] at hb; cases hb
    | published _ hready hfreezing =>
      exact .inr ⟨hfreezing, hready.turnEnded, hready.unexpired, hready.work, hready.background⟩

theorem safe_of_reachable (h : Reachable enc s) : s.work.Formed ∧ s.work.Safe :=
  invariant_of_reachable (fun _ h => h.safe) (fun _ _ hw hw' hsafe hchange => hsafe.step hw hw' hchange) h

theorem sample_started : ∃ s, Started sampleEncoding s := by
  have hstarted : error? (prepareFirst sampleEncoding "project" 21
      (sampleEnvelope (.startRun sampleBrief)) none) = none := by decide +kernel
  obtain ⟨update, h⟩ := error?_eq_none.mp hstarted
  exact ⟨update.projection, "project", 21, sampleEnvelope (.startRun sampleBrief), none, none, update, h, rfl⟩

end Kinewright.Orchestration
