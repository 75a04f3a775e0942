import Kinewright.Export.Runs

/-!
# What callers see of an export job

A job's state only moves forward, and one that is settled stays as it is. What a cancelled job says of
its sound is compared with what the worker saw: the worker writes the reason down whenever it finds the
token cancelled after the encode, also when the encode wrote no file.
-/

namespace Kinewright.Export

open List KeyedMap
open Option hiding get mem_map mem_map_of_mem

variable {Video Audio Report : Type}

/-- How the state of a job may change. -/
inductive ExportJobState.Moves : ExportJobState → ExportJobState → Prop
  | same (state : ExportJobState) : Moves state state
  | start : Moves .queued .running
  | withdraw : Moves .queued .cancelled
  | complete : Moves .running .completed
  | fail : Moves .running .failed
  | abandon : Moves .running .cancelled

open ExportJobState (Moves)

/-- What a step does to the table of jobs. -/
structure Turned (s s' : QueueState Video Audio Report) (action : Action Video Audio Report) : Prop where
  moves : ∀ id job job', s.jobs.get? id = some job → s'.jobs.get? id = some job' →
    Moves job.record.state job'.record.state
  fresh : ∀ id job', s.jobs.get? id = none → s'.jobs.get? id = some job' →
    id = s.nextId ∧ id < s'.nextId ∧ job'.record.state = .queued
  lost : ∀ id job, s.jobs.get? id = some job → s'.jobs.get? id = none →
    action = .send id ∧ s.capacity ≤ s.channel.length
  nextId : s.nextId ≤ s'.nextId

variable {w : Watched Video Audio Report} {s : QueueState Video Audio Report}
  {action : Action Video Audio Report}

theorem Turned.of_jobs {s' : QueueState Video Audio Report} (hjobs : s'.jobs = s.jobs)
    (hnext : s'.nextId = s.nextId) : Turned s s' action where
  moves id job job' hjob hjob' := by
    rw [hjobs, hjob] at hjob'
    obtain rfl := Option.some.inj hjob'
    exact .same _
  fresh id job' hnone hjob' := by
    rw [hjobs, hnone] at hjob'
    cases hjob'
  lost id job hjob hnone := by
    rw [hjobs, hjob] at hnone
    cases hnone
  nextId := hnext.ge

variable {id : ExportJobId}
  {f : ExportJobRecord Video Audio Report → ExportJobRecord Video Audio Report}
  {worker : Worker Video Audio Report} {cancelled : Finset ExportJobId}

/-- A step that changes one job. -/
theorem Turned.of_modify (hmoves : ∀ job, s.jobs.get? id = some job → Moves job.record.state (f job.record).state) :
    Turned s { s.modify id f with worker := worker, cancelled := cancelled } action where
  moves id' job job' hjob hjob' := by
    rw [show _ = _ from QueueState.modify_get? id', hjob] at hjob'
    obtain rfl := Option.some.inj hjob'
    dsimp only
    by_cases hid : id' = id
    · rw [if_pos hid]
      exact hmoves job (hid ▸ hjob)
    · rw [if_neg hid]
      exact .same _
  fresh id' job' hnone hjob' := by
    rw [show _ = _ from QueueState.modify_get? id', hnone] at hjob'
    cases hjob'
  lost id' job hjob hnone := by
    rw [show _ = _ from QueueState.modify_get? id', hjob] at hnone
    cases hnone
  nextId := le_refl _

variable {job : StoredJob Video Audio Report}

section

variable {work : WorkItem}

/-- The worker's job is not done, and it has started once the worker has begun. -/
theorem Sound.moves_cancelled (h : Sound w)
    (hitem : w.queue.worker.item = some work) (hjob : w.queue.jobs.get? work.id = some job) :
    Moves job.record.state .cancelled := by
  obtain ⟨hcompleted, hfailed⟩ := (h.jobs _ job hjob).atWork hitem
  cases hstate : job.record.state with
  | queued => exact .withdraw
  | running => exact .abandon
  | completed => exact absurd hstate hcompleted
  | failed => exact absurd hstate hfailed
  | cancelled => exact .same _

theorem Sound.moves_settled (h : Sound w)
    (hitem : w.queue.worker.item = some work) (hbegun : w.queue.worker.hasBegun = true)
    (hjob : w.queue.jobs.get? work.id = some job) (hcancelled : job.record.state ≠ .cancelled) :
    job.record.state = .running := by
  obtain ⟨hcompleted, hfailed⟩ := (h.jobs _ job hjob).atWork hitem
  have hqueued := (h.jobs _ job hjob).begun hbegun (by rw [hitem]; rfl)
  cases hstate : job.record.state with
  | running => rfl
  | queued => exact absurd hstate hqueued
  | completed => exact absurd hstate hcompleted
  | failed => exact absurd hstate hfailed
  | cancelled => exact absurd hstate hcancelled

theorem Sound.turned_markCancelled (h : Sound w)
    (hitem : w.queue.worker.item = some work) (reason audioReason : Option String) :
    Turned w.queue ((w.queue.markCancelled work.id reason audioReason).goto .idle) action := by
  obtain ⟨cancelled, heq⟩ := w.queue.markCancelled_eq work.id reason audioReason
  rw [heq]
  exact .of_modify (f := fun record => record.markCancelled reason audioReason)
    fun job hjob => h.moves_cancelled hitem hjob

theorem Sound.turned_markFailed (h : Sound w)
    (hitem : w.queue.worker.item = some work) (hbegun : w.queue.worker.hasBegun = true)
    (error : String) :
    Turned w.queue ((w.queue.markFailed work.id error).goto .idle) action := by
  refine .of_modify ?_
  intro job hjob
  by_cases hcancelled : job.record.state = .cancelled
  · rw [if_pos hcancelled]
    exact .same _
  · rw [h.moves_settled hitem hbegun hjob hcancelled]
    exact .fail

end

theorem Sound.turned_work (h : Sound w) (outside : Outside Video Audio Report) :
    Turned w.queue (w.queue.work outside) (.work outside) := by
  rw [QueueState.work]
  cases hworker : w.queue.worker with
  | idle | received work | started work | encoded work result =>
    dsimp only
    split <;> exact .of_jobs rfl rfl
  | clear work =>
    dsimp only
    rw [QueueState.markRunning]
    rcases hjob : w.queue.jobs.get? work.id with _ | job
    · exact .of_jobs rfl rfl
    · by_cases hstart : job.record.state ≠ .queued ∨ work.id ∈ w.queue.cancelled
      · dsimp only
        rw [if_pos hstart]
        exact .of_jobs rfl rfl
      · dsimp only
        rw [if_neg hstart]
        rw [not_or, not_not] at hstart
        refine .of_modify ?_
        intro job' hjob'
        rw [hjob] at hjob'
        obtain rfl := Option.some.inj hjob'
        rw [hstart.1]
        exact .start
  | skipping work => exact h.turned_markCancelled (by rw [hworker]; rfl) none none
  | encoding work | verifying work report => exact .of_jobs rfl rfl
  | abandoning work result => exact h.turned_markCancelled (by rw [hworker]; rfl) _ _
  | settling work result =>
    cases result with
    | finished report =>
      dsimp only
      split <;> exact .of_jobs rfl rfl
    | cancelled | failed error | panicked payload => exact .of_jobs rfl rfl
  | vouching work report => exact .of_modify fun job _ => .same _
  | measured work verification audio report =>
    refine .of_modify ?_
    intro job hjob
    by_cases hcancelled : job.record.state = .cancelled
    · rw [if_pos hcancelled]
      exact .same _
    · rw [h.moves_settled (show w.queue.worker.item = some work by rw [hworker]; rfl)
        (by rw [hworker]; rfl) hjob hcancelled]
      exact .complete
  | failing work error | quarantining work error =>
    exact h.turned_markFailed (by rw [hworker]; rfl) (by rw [hworker]; rfl) error

theorem turned_cancel (id : ExportJobId) : Turned s (s.cancel id) action := by
  rw [QueueState.cancel]
  rcases hjob : s.jobs.get? id with _ | job
  · exact .of_jobs rfl rfl
  · dsimp only
    by_cases hdone : job.record.state.isTerminal
    · rw [if_pos hdone]
      exact .of_jobs rfl rfl
    · rw [if_neg hdone]
      refine .of_modify ?_
      intro job' hjob'
      rw [hjob] at hjob'
      obtain rfl := Option.some.inj hjob'
      rw [Bool.not_eq_true, ExportJobState.open_iff] at hdone
      rcases hdone with hstate | hstate
      · rw [hstate]
        exact .withdraw
      · rw [hstate]
        exact .abandon

theorem Sound.turned_insert (h : Sound w) {outputPath outputKey : String} {verify : Bool}
    {record : ExportJobRecord Video Audio Report}
    (hinsert : w.queue.insert outputPath outputKey verify = .ok (record, s)) :
    Turned w.queue s action := by
  unfold QueueState.insert at hinsert
  split_ifs at hinsert with howns hfull
  obtain ⟨rfl, rfl⟩ := Prod.mk.inj (Except.ok.inj hinsert)
  refine
    { moves := ?_
      fresh := ?_
      lost := ?_
      nextId := Nat.le_succ _ }
  · intro id job job' hjob hjob'
    rw [get?_insert, if_neg (h.jobs id job hjob).lt.ne, hjob] at hjob'
    obtain rfl := Option.some.inj hjob'
    exact .same _
  · intro id job' hnone hjob'
    rw [get?_insert] at hjob'
    by_cases hid : id = w.queue.nextId
    · rw [if_pos hid] at hjob'
      obtain rfl := Option.some.inj hjob'
      exact ⟨hid, hid ▸ Nat.lt_succ_self _, rfl⟩
    · rw [if_neg hid, hnone] at hjob'
      cases hjob'
  · intro id job hjob hnone
    rw [get?_insert, if_neg (h.jobs id job hjob).lt.ne, hjob] at hnone
    cases hnone

theorem turned_send {work : WorkItem} (hfind : (s.sending.find? fun other => other.id = id) = some work) :
    Turned s (s.send work).2 (.send id) := by
  obtain ⟨rfl, -⟩ := perm_eraseP_of_find? hfind
  rw [QueueState.send]
  by_cases hroom : s.channel.length < s.capacity
  · simp only [hroom, if_true]
    exact .of_jobs rfl rfl
  · simp only [hroom, if_false]
    refine
      { moves := ?_
        fresh := ?_
        lost := ?_
        nextId := le_refl _ }
    · intro id job job' hjob hjob'
      rw [get?_erase] at hjob'
      by_cases hid : id = work.id
      · rw [if_pos hid] at hjob'
        cases hjob'
      · rw [if_neg hid, hjob] at hjob'
        obtain rfl := Option.some.inj hjob'
        exact .same _
    · intro id job' hnone hjob'
      rw [get?_erase, hnone, ite_self] at hjob'
      cases hjob'
    · intro id job hjob hnone
      rw [get?_erase] at hnone
      by_cases hid : id = work.id
      · exact ⟨hid ▸ rfl, not_lt.mp hroom⟩
      · rw [if_neg hid, hjob] at hnone
        cases hnone

/-- What a step does to the table of jobs, from any state that a run reaches. -/
theorem Sound.turned (h : Sound w) (action : Action Video Audio Report) :
    Turned w.queue (w.step action).queue action := by
  cases action with
  | insert outputPath outputKey verify =>
    simp only [Watched.step, QueueState.step]
    rcases hinsert : w.queue.insert outputPath outputKey verify with error | ⟨record, s⟩
    · exact .of_jobs rfl rfl
    · exact h.turned_insert hinsert
  | send id =>
    simp only [Watched.step, QueueState.step]
    split
    · rename_i work hfind
      exact turned_send hfind
    · exact .of_jobs rfl rfl
  | get id => exact .of_jobs rfl rfl
  | cancel id => exact turned_cancel id
  | token =>
    simp only [Watched.step, QueueState.step]
    split <;> exact .of_jobs rfl rfl
  | progress progress =>
    simp only [Watched.step, QueueState.step]
    split
    · exact .of_modify (f := fun record => record.setProgress progress) fun _ _ => .same _
    · exact .of_jobs rfl rfl
  | work outside => exact h.turned_work outside

/-! ## What a cancelled job says -/

/-- The step does not settle a job as cancelled after an encode that wrote no file, and finds no drift
for a job that was cancelled after its encode. -/
def QueueState.Spares (s : QueueState Video Audio Report) (action : Action Video Audio Report) :
    Prop :=
  match action, s.worker with
  | .work _, .abandoning _ result => result.isFinished = true
  | .work _, .quarantining work _ => s.jobState work.id ≠ some .cancelled
  | _, _ => True

/-- Every step of the run meets the condition. -/
def Watched.Spares (w : Watched Video Audio Report) : List (Action Video Audio Report) → Prop
  | [] => True
  | action :: actions => w.queue.Spares action ∧ (w.step action).Spares actions

/-- What the worker has seen is written down where it is looked for. -/
structure Told (w : Watched Video Audio Report) : Prop where
  lt : ∀ sighting ∈ w.sightings, sighting.id < w.queue.nextId
  gone : ∀ sighting ∈ w.sightings, sighting.id ∉ w.queue.items
  reason : ∀ id job, w.queue.jobs.get? id = some job → job.record.state ≠ .completed →
    (job.record.audioVerificationUnavailableReason = some exportCancelledBeforeVerification ↔ w.SeenBefore id)

section

variable (h : Told w)

include h

/-- The step changes what is said of no job, and sees no cancellation. -/
theorem Told.of_modify {w' : Watched Video Audio Report}
    (hnext : w.queue.nextId ≤ w'.queue.nextId) (hseen : w'.sightings = w.sightings)
    (hitems : ∀ sighting ∈ w.sightings, sighting.id ∈ w'.queue.items → sighting.id ∈ w.queue.items)
    (hjobs : ∀ id job', w'.queue.jobs.get? id = some job' → job'.record.state ≠ .completed →
      (∃ job, w.queue.jobs.get? id = some job ∧ job.record.state ≠ .completed ∧
        job.record.audioVerificationUnavailableReason = job'.record.audioVerificationUnavailableReason) ∨
      (w.queue.nextId ≤ id ∧ job'.record.audioVerificationUnavailableReason = none)) :
    Told w' where
  lt sighting hmem := (h.lt sighting (hseen ▸ hmem)).trans_le hnext
  gone sighting hmem hitem := h.gone sighting (hseen ▸ hmem) (hitems sighting (hseen ▸ hmem) hitem)
  reason id job' hjob' hstate := by
    rw [Watched.SeenBefore, hseen]
    rcases hjobs id job' hjob' hstate with ⟨job, hjob, hopen, hreason⟩ | ⟨hnew, hreason⟩
    · rw [← hreason]
      exact h.reason id job hjob hopen
    · rw [hreason]
      constructor
      · nofun
      · rintro ⟨sighting, hmem, rfl, -⟩
        exact absurd (h.lt sighting hmem) (not_lt.mpr hnew)

/-- The worker's job was not seen before. -/
theorem Told.unseen {work : WorkItem} (hitem : w.queue.worker.item = some work) :
    ∀ sighting ∈ w.sightings, sighting.id ≠ work.id := by
  intro sighting hmem heq
  apply h.gone sighting hmem
  rw [heq, QueueState.items, hitem]
  simp

/-- Nothing was said of the worker's job. -/
theorem Told.unsaid {work : WorkItem} (hitem : w.queue.worker.item = some work)
    (hjob : w.queue.jobs.get? work.id = some job) (hstate : job.record.state ≠ .completed) :
    job.record.audioVerificationUnavailableReason ≠ some exportCancelledBeforeVerification := by
  intro hreason
  obtain ⟨sighting, hmem, hid, -⟩ := (h.reason _ job hjob hstate).mp hreason
  exact h.unseen hitem sighting hmem hid

/-- The worker settles its job and lets go of its item; `seen` is the cancellation that it acts on. -/
theorem Told.settle (hsound : Sound w) {work : WorkItem}
    (hitem : w.queue.worker.item = some work) {seen : Option Sighting}
    (hid : ∀ sighting ∈ seen, sighting.id = work.id)
    (hreason : ∀ job, w.queue.jobs.get? work.id = some job → (f job.record).state ≠ .completed →
      ((f job.record).audioVerificationUnavailableReason = some exportCancelledBeforeVerification ↔
        ∃ sighting ∈ seen, sighting.encoded = true ∧ sighting.verified = false)) :
    Told { w with
      queue := { w.queue.modify work.id f with worker := .idle, cancelled := cancelled }
      sightings := w.sightings ++ seen.toList } := by
  have hlt : work.id < w.queue.nextId := by
    apply hsound.items_lt
    rw [QueueState.items, hitem]
    simp
  refine
    { lt := ?_
      gone := ?_
      reason := ?_ }
  · intro sighting hmem
    rcases mem_append.mp hmem with hmem | hmem
    · exact h.lt sighting hmem
    · rw [hid sighting (mem_toList.mp hmem)]
      exact hlt
  · intro sighting hmem hitems
    have hwaiting : sighting.id ∈ (w.queue.sending ++ w.queue.channel).map WorkItem.id := by
      simpa [QueueState.items, Worker.item] using hitems
    rcases mem_append.mp hmem with hmem | hmem
    · apply h.gone sighting hmem
      rw [QueueState.items, map_append]
      exact mem_append_left _ hwaiting
    · rw [hid sighting (mem_toList.mp hmem)] at hwaiting
      exact hsound.gone hitem hwaiting
  · intro id job hjob hstate
    rw [show _ = _ from QueueState.modify_get? id] at hjob
    obtain ⟨job, hold, rfl⟩ := map_eq_some_iff.mp hjob
    by_cases hwork : id = work.id
    · subst hwork
      rw [if_pos rfl] at hstate ⊢
      rw [hreason job hold hstate]
      constructor
      · rintro ⟨sighting, hmem, hseen⟩
        exact ⟨sighting, mem_append_right _ (mem_toList.mpr hmem), hid sighting hmem, hseen⟩
      · rintro ⟨sighting, hmem, heq, hseen⟩
        rcases mem_append.mp hmem with hmem | hmem
        · exact absurd heq (h.unseen hitem sighting hmem)
        · exact ⟨sighting, mem_toList.mp hmem, hseen⟩
    · rw [if_neg hwork] at hstate ⊢
      rw [h.reason id job hold hstate]
      constructor
      · rintro ⟨sighting, hmem, hseen⟩
        exact ⟨sighting, mem_append_left _ hmem, hseen⟩
      · rintro ⟨sighting, hmem, heq, hseen⟩
        rcases mem_append.mp hmem with hmem | hmem
        · exact ⟨sighting, hmem, heq, hseen⟩
        · exact absurd (heq.symm.trans (hid sighting (mem_toList.mp hmem))) hwork

/-- A step of the worker that settles no job. -/
theorem Told.goto (hjobs : s.jobs = w.queue.jobs) (hnext : s.nextId = w.queue.nextId)
    (hitems : ∀ id ∈ s.items, id ∈ w.queue.items) : Told { w with queue := s } := by
  refine h.of_modify hnext.ge rfl (fun sighting _ => hitems sighting.id) ?_
  intro id job hjob hstate
  rw [show _ = _ from hjobs] at hjob
  exact .inl ⟨job, hjob, hstate, rfl⟩

/-- The worker moves on with its item. -/
theorem Told.move {work : WorkItem} (hitem : w.queue.worker.item = some work) (hitem' : worker.item = some work) :
    Told { w with queue := w.queue.goto worker } := by
  refine h.goto rfl rfl ?_
  rw [QueueState.items, QueueState.items, hitem, QueueState.goto, hitem']
  exact fun _ hid => hid

/-- A job that is not completed is changed, and nothing is said of it. -/
theorem Told.edit (hitem : worker.item = w.queue.worker.item)
    (hf : ∀ job, w.queue.jobs.get? id = some job → (f job.record).state ≠ .completed →
      job.record.state ≠ .completed ∧ (f job.record).audioVerificationUnavailableReason =
        job.record.audioVerificationUnavailableReason) :
    Told { w with queue := { w.queue.modify id f with worker := worker, cancelled := cancelled } } := by
  refine h.of_modify (le_refl _) rfl ?_ ?_
  · intro sighting _ hmem
    rw [QueueState.items, hitem] at hmem
    exact hmem
  · intro id' job hjob hstate
    obtain ⟨job, hold, rfl⟩ := map_eq_some_iff.mp ((QueueState.modify_get? id').symm.trans hjob)
    refine .inl ⟨job, hold, ?_⟩
    by_cases hid : id' = id
    · rw [if_pos hid] at hstate ⊢
      obtain ⟨hwas, hsame⟩ := hf job (hid ▸ hold) hstate
      exact ⟨hwas, hsame.symm⟩
    · rw [if_neg hid] at hstate ⊢
      exact ⟨hstate, rfl⟩

end

/-- The state of the worker's job. -/
theorem jobState_of_get? (hjob : s.jobs.get? id = some job) : s.jobState id = some job.record.state := by
  rw [QueueState.jobState, QueueState.get, hjob]
  rfl

section

variable (h : Told w) (hsound : Sound w)

include h hsound

/-- The worker marks its job as failed: it sees a cancellation, or leaves the reason as it was. -/
theorem Told.markFailed {work : WorkItem} (hitem : w.queue.worker.item = some work) (error : String) (encoded : Bool)
    (hspares : encoded = true → w.queue.jobState work.id ≠ some .cancelled) :
    Told { w with
      queue := (w.queue.markFailed work.id error).goto .idle
      sightings := w.sightings ++ (if w.queue.jobState work.id = some .cancelled then
        some ⟨work.id, encoded, false⟩ else none : Option Sighting).toList } := by
  refine h.settle hsound hitem (f := fun record => if record.state = .cancelled then record
    else { record with state := .failed, error := some error }) ?_ ?_
  · intro sighting hmem
    by_cases hcancelled : w.queue.jobState work.id = some .cancelled
    · rw [if_pos hcancelled] at hmem
      obtain rfl := Option.some.inj hmem
      rfl
    · rw [if_neg hcancelled] at hmem
      cases hmem
  · intro job hjob hstate
    have hwas : job.record.state ≠ .completed := ((hsound.jobs _ job hjob).atWork hitem).1
    have hsame : (if job.record.state = .cancelled then job.record
        else { job.record with state := .failed, error := some error
          }).audioVerificationUnavailableReason =
        job.record.audioVerificationUnavailableReason := by
      by_cases hcancelled : job.record.state = .cancelled
      · rw [if_pos hcancelled]
      · rw [if_neg hcancelled]
    rw [hsame, iff_false_left (h.unsaid hitem hjob hwas)]
    rintro ⟨sighting, hmem, hencoded, -⟩
    by_cases hcancelled : w.queue.jobState work.id = some .cancelled
    · rw [if_pos hcancelled] at hmem
      obtain rfl := Option.some.inj hmem
      exact hspares hencoded hcancelled
    · rw [if_neg hcancelled] at hmem
      cases hmem

theorem Told.markCancelled {work : WorkItem}
    (hitem : w.queue.worker.item = some work) (reason audioReason : Option String) (encoded : Bool)
    (hreason : audioReason = some exportCancelledBeforeVerification ↔ encoded = true) :
    Told { w with
      queue := (w.queue.markCancelled work.id reason audioReason).goto .idle
      sightings := w.sightings ++ [⟨work.id, encoded, false⟩] } := by
  obtain ⟨cancelled, heq⟩ := w.queue.markCancelled_eq work.id reason audioReason
  rw [heq]
  have hsettle : Told { w with
      queue := { w.queue.modify work.id fun record => record.markCancelled reason audioReason with
        worker := .idle, cancelled := cancelled }
      sightings := w.sightings ++ (some (⟨work.id, encoded, false⟩ : Sighting)).toList } := by
    refine h.settle hsound hitem ?_ ?_
    · rintro _ ⟨⟩
      rfl
    · intro job _ _
      refine Iff.trans hreason ?_
      simp
  exact hsettle

theorem Told.markCompleted {work : WorkItem}
    (hitem : w.queue.worker.item = some work) (verification : VerificationOutcome Video)
    (audio : AudioVerificationOutcome Audio) (report : Option Report) :
    Told { w with
      queue := (w.queue.markCompleted work.id verification audio report).goto .idle
      sightings := w.sightings ++ (if w.queue.jobState work.id = some .cancelled then
        some ⟨work.id, true, true⟩ else none : Option Sighting).toList } := by
  refine h.settle hsound hitem ?_ ?_
  · intro sighting hmem
    by_cases hcancelled : w.queue.jobState work.id = some .cancelled
    · rw [if_pos hcancelled] at hmem
      obtain rfl := Option.some.inj hmem
      rfl
    · rw [if_neg hcancelled] at hmem
      cases hmem
  · intro job hjob hstate
    have hjobState := jobState_of_get? hjob
    by_cases hcancelled : job.record.state = .cancelled
    · rw [if_pos hcancelled, if_pos (hjobState.trans (congrArg some hcancelled))]
      rw [if_pos hcancelled] at hstate
      rw [iff_false_left (h.unsaid hitem hjob hstate)]
      rintro ⟨sighting, ⟨⟩, -, ⟨⟩⟩
    · rw [if_neg hcancelled] at hstate
      exact absurd rfl hstate

theorem Told.work (outside : Outside Video Audio Report) (hspares : w.queue.Spares (.work outside)) :
    Told { w with
      queue := w.queue.work outside
      sightings := w.sightings ++ (w.queue.sighting (.work outside)).toList } := by
  rw [QueueState.work, QueueState.sighting]
  cases hworker : w.queue.worker with
  | idle =>
    simp only [toList_none, append_nil]
    rcases hchannel : w.queue.channel with _ | ⟨work, channel⟩
    · exact h
    · refine h.goto rfl rfl ?_
      intro id hid
      rw [QueueState.items, hchannel, hworker]
      simpa [QueueState.items, Worker.item, or_comm] using hid
  | received work | started work | encoded work result =>
    simp only [toList_none, append_nil]
    split <;> exact h.move (show w.queue.worker.item = some work by rw [hworker]; rfl) rfl
  | clear work =>
    simp only [toList_none, append_nil]
    have hitem : w.queue.worker.item = some work := by rw [hworker]; rfl
    rw [QueueState.markRunning]
    rcases hjob : w.queue.jobs.get? work.id with _ | job
    · exact h.move hitem rfl
    · by_cases hstart : job.record.state ≠ .queued ∨ work.id ∈ w.queue.cancelled
      · simp only [hstart, if_true]
        exact h.move hitem rfl
      · simp only [hstart, if_false]
        refine h.edit (f := fun record => { record with state := .running }) hitem.symm ?_
        intro job' hjob' _
        rw [hjob] at hjob'
        obtain rfl := Option.some.inj hjob'
        rw [not_or, not_not] at hstart
        exact ⟨by simp [hstart.1], rfl⟩
  | skipping work =>
    exact h.markCancelled hsound (by rw [hworker]; rfl) none none false (by simp)
  | encoding work | verifying work report =>
    simp only [toList_none, append_nil]
    exact h.move (show w.queue.worker.item = some work by rw [hworker]; rfl) rfl
  | abandoning work result =>
    have hfinished : result.isFinished = true := by
      simpa [QueueState.Spares, hworker] using hspares
    refine h.markCancelled hsound (by rw [hworker]; rfl) _ _ result.isFinished ?_
    simp [hfinished]
  | settling work result =>
    simp only [toList_none, append_nil]
    have hitem : w.queue.worker.item = some work := by rw [hworker]; rfl
    cases result with
    | finished report =>
      dsimp only
      split <;> exact h.move hitem rfl
    | cancelled | failed error | panicked payload => exact h.move hitem rfl
  | vouching work report =>
    simp only [toList_none, append_nil]
    exact h.edit (f := fun record => { record with verifying := true }) (by rw [hworker]; rfl)
      fun job _ hstate => ⟨hstate, rfl⟩
  | measured work verification audio report =>
    exact h.markCompleted hsound (by rw [hworker]; rfl) verification audio report
  | failing work error =>
    exact h.markFailed hsound (by rw [hworker]; rfl) error false (by simp)
  | quarantining work error =>
    refine h.markFailed hsound (by rw [hworker]; rfl) error true ?_
    intro _
    simpa [QueueState.Spares, hworker] using hspares

end

theorem Told.cancel (h : Told w) (id : ExportJobId) : Told { w with queue := w.queue.cancel id } := by
  rw [QueueState.cancel]
  rcases hjob : w.queue.jobs.get? id with _ | job
  · exact h
  · dsimp only
    by_cases hdone : job.record.state.isTerminal
    · rw [if_pos hdone]
      exact h
    · rw [if_neg hdone]
      refine h.edit (f := fun record => { record with state := .cancelled, error := none }) rfl ?_
      intro job' hjob' _
      rw [hjob] at hjob'
      obtain rfl := Option.some.inj hjob'
      refine ⟨?_, rfl⟩
      intro hstate
      rw [hstate] at hdone
      exact hdone rfl

theorem Told.insert (h : Told w) {outputPath outputKey : String} {verify : Bool}
    {record : ExportJobRecord Video Audio Report} {asked : ExportJobId → Bool}
    (hinsert : w.queue.insert outputPath outputKey verify = .ok (record, s)) :
    Told { w with queue := s, asked := asked } := by
  unfold QueueState.insert at hinsert
  split_ifs at hinsert with howns hfull
  obtain ⟨rfl, rfl⟩ := Prod.mk.inj (Except.ok.inj hinsert)
  refine h.of_modify (Nat.le_succ _) rfl ?_ ?_
  · intro sighting hmem hitems
    have hne := (h.lt sighting hmem).ne
    simpa [QueueState.items, hne] using hitems
  · intro id job hjob hstate
    rw [get?_insert] at hjob
    by_cases hid : id = w.queue.nextId
    · rw [if_pos hid] at hjob
      obtain rfl := Option.some.inj hjob
      exact .inr ⟨hid.ge, rfl⟩
    · rw [if_neg hid] at hjob
      exact .inl ⟨job, hjob, hstate, rfl⟩

theorem Told.send (h : Told w) {work : WorkItem}
    (hfind : (w.queue.sending.find? fun other => other.id = id) = some work) :
    Told { w with queue := (w.queue.send work).2 } := by
  obtain ⟨rfl, hperm⟩ := perm_eraseP_of_find? hfind
  have hmem : ∀ other ∈ work :: w.queue.sending.eraseP (fun other => other.id = work.id),
      other ∈ w.queue.sending := fun other => hperm.mem_iff.mp
  obtain ⟨hwork, hrest⟩ := forall_mem_cons.mp hmem
  rw [QueueState.send]
  by_cases hroom : w.queue.channel.length < w.queue.capacity
  · simp only [hroom, if_true]
    refine h.goto rfl rfl ?_
    intro id hid
    obtain ⟨other, hother, rfl⟩ := mem_map.mp hid
    apply mem_map_of_mem
    simp only [mem_append, mem_singleton] at hother ⊢
    rcases hother with (hother | hother | rfl) | hother
    · exact .inl (.inl (hrest other hother))
    · exact .inl (.inr hother)
    · exact .inl (.inl hwork)
    · exact .inr hother
  · simp only [hroom, if_false]
    refine h.of_modify (le_refl _) rfl ?_ ?_
    · intro sighting _ hid
      obtain ⟨other, hother, heq⟩ := mem_map.mp hid
      rw [← heq]
      apply mem_map_of_mem
      simp only [mem_append] at hother ⊢
      rcases hother with (hother | hother) | hother
      · exact .inl (.inl (hrest other hother))
      · exact .inl (.inr hother)
      · exact .inr hother
    · intro id job hjob hstate
      rw [get?_erase] at hjob
      by_cases hid : id = work.id
      · rw [if_pos hid] at hjob
        cases hjob
      · rw [if_neg hid] at hjob
        exact .inl ⟨job, hjob, hstate, rfl⟩

theorem told_new (capacity : ℕ) : Told (Watched.new capacity : Watched Video Audio Report) where
  lt sighting h := by cases h
  gone sighting h := by cases h
  reason id job h := by cases h

theorem Told.step (h : Told w) (hsound : Sound w) (action : Action Video Audio Report)
    (hspares : w.queue.Spares action) : Told (w.step action) := by
  have hask (asked : ExportJobId → Bool) : Told { w with asked := asked } := ⟨h.lt, h.gone, h.reason⟩
  cases action with
  | insert outputPath outputKey verify =>
    simp only [Watched.step, QueueState.step, QueueState.sighting, toList_none, append_nil]
    rcases hinsert : w.queue.insert outputPath outputKey verify with error | ⟨record, s⟩
    · exact hask _
    · exact h.insert hinsert
  | send id =>
    simp only [Watched.step, QueueState.step, QueueState.sighting, toList_none, append_nil]
    split
    · rename_i work hfind
      exact h.send hfind
    · exact h
  | get id =>
    simp only [Watched.step, QueueState.step, QueueState.sighting, toList_none, append_nil]
    exact h
  | cancel id =>
    simp only [Watched.step, QueueState.step, QueueState.sighting, toList_none, append_nil]
    exact h.cancel id
  | token =>
    simp only [Watched.step, QueueState.step, QueueState.sighting, toList_none, append_nil]
    split
    · exact h.goto rfl rfl fun _ hid => hid
    · exact h
  | progress progress =>
    simp only [Watched.step, QueueState.step, QueueState.sighting, toList_none, append_nil]
    split
    · exact h.edit (f := fun record => record.setProgress progress) rfl
        fun job _ hstate => ⟨hstate, rfl⟩
    · exact h
  | work outside => exact h.work hsound outside hspares

theorem Told.run (h : Told w) (hsound : Sound w) {actions : List (Action Video Audio Report)}
    (hspares : w.Spares actions) : Told (w.run actions) := by
  induction actions generalizing w with
  | nil => exact h
  | cons action actions ih =>
    exact ih (h.step hsound action hspares.1) (hsound.step action) hspares.2

/-! ## The life of a job -/

/-- What holds of the table of jobs after every run. -/
structure Lawful (w : Watched Video Audio Report) : Prop where
  below : ∀ id record, w.queue.get id = some record → id < w.queue.nextId
  oneRunning : ∀ id id', w.queue.jobState id = some .running → w.queue.jobState id' = some .running → id = id'
  oneOwner : w.queue.OneOwner
  verifying : ∀ id record, w.queue.get id = some record → record.verifying = true →
    w.queue.worker.isVerifying = true ∧ w.queue.worker.item.map WorkItem.id = some id
  settled : ∀ id record, w.queue.get id = some record → record.state = .completed → Settled (w.asked id) record

theorem Sound.lawful (h : Sound w) : Lawful w where
  below id record hrecord := by
    obtain ⟨job, hjob, rfl⟩ := map_eq_some_iff.mp hrecord
    exact (h.jobs id job hjob).lt
  oneRunning id id' hid hid' := by
    have hat (id : ExportJobId) (hid : w.queue.jobState id = some .running) :
        w.queue.worker.item.map WorkItem.id = some id := by
      obtain ⟨record, hrecord, hstate⟩ := map_eq_some_iff.mp hid
      obtain ⟨job, hjob, rfl⟩ := map_eq_some_iff.mp hrecord
      exact (h.jobs id job hjob).running hstate
    exact Option.some.inj ((hat id hid).symm.trans (hat id' hid'))
  oneOwner := h.outputs
  verifying id record hrecord := by
    obtain ⟨job, hjob, rfl⟩ := map_eq_some_iff.mp hrecord
    exact (h.jobs id job hjob).verifying
  settled id record hrecord := by
    obtain ⟨job, hjob, rfl⟩ := map_eq_some_iff.mp hrecord
    exact (h.jobs id job hjob).settled

/-- After every run the table is lawful and the next step moves every job forward; after a run that
settles no job as cancelled behind an encode without a file, and no drift of a cancelled job, a
cancelled job says that it was not measured exactly if the worker saw that between the encode and the
verification. -/
theorem export_job_lifecycle (capacity : ℕ) (actions : List (Action Video Audio Report)) :
    Lawful ((Watched.new capacity).run actions) ∧ (∀ action, Turned ((Watched.new capacity).run actions).queue
        (((Watched.new capacity).run actions).step action).queue action) ∧
      ((Watched.new capacity).Spares actions → ∀ id record,
        ((Watched.new capacity).run actions).queue.get id = some record →
        record.state = .cancelled →
        (record.audioVerificationUnavailableReason = some exportCancelledBeforeVerification ↔
          ((Watched.new capacity).run actions).SeenBefore id)) := by
  have hsound : Sound ((Watched.new capacity).run actions : Watched Video Audio Report) :=
    (sound_new capacity).run actions
  refine ⟨hsound.lawful, hsound.turned, ?_⟩
  intro hspares id record hrecord hstate
  obtain ⟨job, hjob, rfl⟩ := map_eq_some_iff.mp hrecord
  have htold := (told_new capacity).run (sound_new capacity) hspares
  apply htold.reason id job hjob
  rw [hstate]
  nofun

/-- What the outside answers when nothing fails. -/
def quiet : Outside Unit Unit Unit where
  mediaPreflight := none
  lutPreflight := none
  workerOutput := none
  encode := .finished none
  sourceIdentityDrift := none
  quarantineUntrustedOutput := ""
  verifyDeliveryOutput := .ok ()
  verifyDeliveryAudio := .ok ()

/-- One job is taken up to its encode and cancelled while it runs, and the worker settles it. -/
def cancelledWhileEncoding (encode : EncodeResult Unit) : List (Action Unit Unit Unit) :=
  [.insert "/out/a.mp4" "/out/a.mp4" true, .send 1] ++ List.replicate 4 (.work quiet) ++
    [.cancel 1] ++ List.replicate 3 (.work { quiet with encode := encode })

theorem export_job_lifecycle_demo : ((Watched.new 4).run (cancelledWhileEncoding (.finished none))).SeenBefore 1 := by
  refine ((export_job_lifecycle 4 (cancelledWhileEncoding (.finished none))).2.2 ?_ 1 _ rfl rfl).mp
    rfl
  exact ⟨trivial, trivial, trivial, trivial, trivial, trivial, trivial, trivial, trivial, rfl, trivial⟩

/-- The backend obeyed the cancellation and wrote no file; the job says that what it wrote was not
measured. -/
theorem cancelled_encode_told : ¬ ∀ (capacity : ℕ) (actions : List (Action Unit Unit Unit)) (id : ExportJobId)
      (record : ExportJobRecord Unit Unit Unit),
      ((Watched.new capacity).run actions).queue.get id = some record → record.state = .cancelled →
      (record.audioVerificationUnavailableReason = some exportCancelledBeforeVerification ↔
        ((Watched.new capacity).run actions).SeenBefore id) := by
  intro h
  obtain ⟨sighting, hmem, -, hencoded, -⟩ := (h 4 (cancelledWhileEncoding .cancelled) 1 _ rfl rfl).mp rfl
  obtain rfl := mem_singleton.mp hmem
  cases hencoded

end Kinewright.Export
