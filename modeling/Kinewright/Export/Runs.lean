import Kinewright.Export.Queue

/-!
# The life of an export job

What holds of the table of jobs after any interleaving of the callers and the worker. The worker holds
one item at a time and no item is in two places, so only the worker's own job changes under it, except
that a caller may cancel it; every settling function leaves a job alone that was cancelled before.
-/

namespace Kinewright.Export

open List KeyedMap

variable {Video Audio Report : Type}

namespace Worker

/-- The item that the worker has taken. -/
def item : Worker Video Audio Report → Option WorkItem
  | .idle => none
  | .received work | .clear work | .skipping work | .started work | .encoding work
  | .encoded work _ | .abandoning work _ | .settling work _ | .vouching work _ | .verifying work _
  | .measured work _ _ _ | .failing work _ | .quarantining work _ => some work

/-- The worker marked its job as running, or saw that it may not. -/
def hasBegun : Worker Video Audio Report → Bool
  | .idle | .received _ | .clear _ | .skipping _ => false
  | _ => true

/-- The worker measures what its encode wrote. -/
def isVerifying : Worker Video Audio Report → Bool
  | .verifying _ _ | .measured _ _ _ _ => true
  | _ => false

/-- What was measured is what the item asks for. -/
def Measures : Worker Video Audio Report → Prop
  | .measured work .notRequested _ _ => work.verify = false
  | .measured work _ _ _ => work.verify = true
  | _ => True

end Worker

namespace QueueState

variable (s : QueueState Video Audio Report)

/-- The jobs whose items are on their way to the worker or with it. -/
def items : List ExportJobId := (s.sending ++ s.channel ++ s.worker.item.toList).map WorkItem.id

/-- Of the jobs that are neither done nor cancelled no two write to one path. -/
def OneOwner : Prop :=
  ∀ id id' job job', s.jobs.get? id = some job → s.jobs.get? id' = some job' →
    job.record.state.isTerminal = false → job'.record.state.isTerminal = false →
    job.outputKey = job'.outputKey → id = id'

/-- The state of a job. -/
def jobState (id : ExportJobId) : Option ExportJobState := (s.get id).map ExportJobRecord.state

end QueueState

/-! ## What a run is asked and what its worker sees -/

/-- The worker acts on the cancellation of a job: whether its encode had finished by then, and whether
its verification had started. -/
structure Sighting where
  id : ExportJobId
  encoded : Bool
  verified : Bool

/-- The cancellation that the worker acts on in a step. -/
def QueueState.sighting (s : QueueState Video Audio Report) : Action Video Audio Report → Option Sighting
  | .work _ => match s.worker with
      | .skipping work => some ⟨work.id, false, false⟩
      | .abandoning work result => some ⟨work.id, result.isFinished, false⟩
      | .failing work _ => if s.jobState work.id = some .cancelled then some ⟨work.id, false, false⟩ else none
      | .quarantining work _ => if s.jobState work.id = some .cancelled then some ⟨work.id, true, false⟩ else none
      | .measured work _ _ _ => if s.jobState work.id = some .cancelled then some ⟨work.id, true, true⟩ else none
      | _ => none
  | _ => none

/-- A queue, with what was asked of its jobs and what its worker has seen. -/
structure Watched (Video Audio Report : Type) where
  queue : QueueState Video Audio Report
  asked : ExportJobId → Bool
  sightings : List Sighting

namespace Watched

/-- A new queue, of which nothing was asked. -/
def new (capacity : ℕ) : Watched Video Audio Report where
  queue := .new capacity
  asked _ := false
  sightings := []

/-- The queue takes the step; what was asked and what was seen is written down. -/
def step (w : Watched Video Audio Report) (action : Action Video Audio Report) :
    Watched Video Audio Report where
  queue := w.queue.step action
  asked := match action with
    | .insert _ _ verify => fun id => if id = w.queue.nextId then verify else w.asked id
    | _ => w.asked
  sightings := w.sightings ++ (w.queue.sighting action).toList

/-- The state after a run. -/
def run (w : Watched Video Audio Report) (actions : List (Action Video Audio Report)) : Watched Video Audio Report :=
  actions.foldl step w

/-- The worker has seen that the job was cancelled between its encode and its verification. -/
def SeenBefore (w : Watched Video Audio Report) (id : ExportJobId) : Prop :=
  ∃ sighting ∈ w.sightings, sighting.id = id ∧ sighting.encoded = true ∧ sighting.verified = false

end Watched

/-- What a completed job says of its measurements: it has exactly one of a measurement and the reason
why there is none, and of the picture's only if it was asked for. -/
structure Settled (asked : Bool) (record : ExportJobRecord Video Audio Report) : Prop where
  measured : asked = true → record.verification.isSome = !record.verificationUnavailableReason.isSome
  unasked : asked = false → record.verification = none ∧ record.verificationUnavailableReason = none
  audio : record.audioVerification.isSome = !record.audioVerificationUnavailableReason.isSome

/-! ## The invariant -/

/-- What holds of one job. -/
structure Fits (w : Watched Video Audio Report) (id : ExportJobId)
    (record : ExportJobRecord Video Audio Report) : Prop where
  lt : id < w.queue.nextId
  running : record.state = .running → w.queue.worker.item.map WorkItem.id = some id
  held : id ∈ w.queue.items → record.state ≠ .completed ∧ record.state ≠ .failed
  begun : w.queue.worker.hasBegun = true → w.queue.worker.item.map WorkItem.id = some id → record.state ≠ .queued
  verifying : record.verifying = true →
    w.queue.worker.isVerifying = true ∧ w.queue.worker.item.map WorkItem.id = some id
  settled : record.state = .completed → Settled (w.asked id) record

/-- What holds after every run. -/
structure Sound (w : Watched Video Audio Report) : Prop where
  jobs : ∀ id job, w.queue.jobs.get? id = some job → Fits w id job.record
  items_nodup : w.queue.items.Nodup
  items_lt : ∀ id ∈ w.queue.items, id < w.queue.nextId
  asked : ∀ work ∈ w.queue.sending ++ w.queue.channel ++ w.queue.worker.item.toList, w.asked work.id = work.verify
  measures : w.queue.worker.Measures
  outputs : w.queue.OneOwner

variable {w : Watched Video Audio Report}

theorem sound_new (capacity : ℕ) : Sound (Watched.new capacity : Watched Video Audio Report) where
  jobs id job h := by cases h
  items_nodup := nodup_nil
  items_lt id h := by cases h
  asked work h := by cases h
  measures := trivial
  outputs id id' job job' h := by cases h

namespace QueueState

variable {s : QueueState Video Audio Report} {id : ExportJobId}
  {f : ExportJobRecord Video Audio Report → ExportJobRecord Video Audio Report}

theorem modify_get? (id' : ExportJobId) : (s.modify id f).jobs.get? id' = (s.jobs.get? id').map fun job =>
      if id' = id then { job with record := f job.record } else job :=
  get?_map _ _ _

@[simp] theorem modify_sending : (s.modify id f).sending = s.sending := rfl

@[simp] theorem modify_channel : (s.modify id f).channel = s.channel := rfl

theorem OneOwner.modify (h : s.OneOwner)
    (hterminal : ∀ job, s.jobs.get? id = some job → (f job.record).state.isTerminal = false →
      job.record.state.isTerminal = false) : (s.modify id f).OneOwner := by
  have hback (other : ExportJobId) (job : StoredJob Video Audio Report)
      (hjob : s.jobs.get? other = some job) (hopen : (if other = id then
        { job with record := f job.record } else job).record.state.isTerminal = false) :
      job.record.state.isTerminal = false := by
    by_cases hid : other = id
    · rw [if_pos hid] at hopen
      exact hterminal job (hid ▸ hjob) hopen
    · rwa [if_neg hid] at hopen
  have hsame (other : ExportJobId) (job : StoredJob Video Audio Report) : (if other = id then
      { job with record := f job.record } else job).outputKey = job.outputKey := by
    by_cases hid : other = id
    · rw [if_pos hid]
    · rw [if_neg hid]
  intro left right job job' hjob hjob' hopen hopen' hkey
  obtain ⟨job, hold, rfl⟩ := Option.map_eq_some_iff.mp hjob
  obtain ⟨job', hold', rfl⟩ := Option.map_eq_some_iff.mp hjob'
  rw [hsame, hsame] at hkey
  exact h left right job job' hold hold' (hback left job hold hopen) (hback right job' hold' hopen') hkey

/-- There is nothing to change of a job that is not there. -/
theorem modify_of_none (h : s.jobs.get? id = none) : s.modify id f = s := by
  have hjobs : (s.modify id f).jobs = s.jobs := by
    apply ext_get?
    intro id'
    rw [modify_get?]
    by_cases hid : id' = id
    · rw [hid, h]
      rfl
    · rcases s.jobs.get? id' with _ | job
      · rfl
      · simp [hid]
  obtain ⟨_, _, _, _, _, _, _⟩ := s
  simpa [modify] using hjobs

/-- `mark_cancelled` changes its job and the tokens. -/
theorem markCancelled_eq (id : ExportJobId) (reason audioReason : Option String) :
    ∃ cancelled, s.markCancelled id reason audioReason =
      { s.modify id fun record => record.markCancelled reason audioReason with
        cancelled := cancelled } := by
  rw [markCancelled]
  rcases h : s.jobs.get? id with _ | job
  · refine ⟨s.cancelled, ?_⟩
    rw [modify_of_none h]
  · exact ⟨s.cancelled ∪ {id}, rfl⟩

end QueueState

variable {record : ExportJobRecord Video Audio Report}

/-- A job that is not the worker's is left alone when the worker moves on. -/
theorem Fits.other {id : ExportJobId} {work : WorkItem} (h : Fits w id record) (hid : id ≠ work.id)
    (hitem : w.queue.worker.item = some work) {w' : Watched Video Audio Report}
    (hnext : w'.queue.nextId = w.queue.nextId) (hasked : w'.asked = w.asked)
    (hitem' : w'.queue.worker.item = some work ∨ w'.queue.worker.item = none)
    (hitems : ∀ id ∈ w'.queue.items, id ∈ w.queue.items) : Fits w' id record := by
  have hnot : w.queue.worker.item.map WorkItem.id ≠ some id := by
    rw [hitem]
    simpa using hid.symm
  have hnot' : w'.queue.worker.item.map WorkItem.id ≠ some id := by
    rcases hitem' with hitem' | hitem'
    · rw [hitem']
      simpa using hid.symm
    · rw [hitem']
      simp
  exact
    { lt := hnext ▸ h.lt
      running := fun hrun => absurd (h.running hrun) hnot
      held := fun hmem => h.held (hitems id hmem)
      begun := fun _ hat => absurd hat hnot'
      verifying := fun hverifying => absurd (h.verifying hverifying).2 hnot
      settled := by
        rw [hasked]
        exact h.settled }

/-- A job that the worker has what it had of, and of which no more is asked. -/
theorem Fits.later {id : ExportJobId} (h : Fits w id record) {w' : Watched Video Audio Report}
    (hworker : w'.queue.worker = w.queue.worker) (hnext : w.queue.nextId ≤ w'.queue.nextId)
    (hitems : id ∈ w'.queue.items → id ∈ w.queue.items) (hasked : w'.asked id = w.asked id) :
    Fits w' id record := by
  obtain ⟨hlt, hrunning, hheld, hbegun, hverifying, hsettled⟩ := h
  rw [← hworker] at hrunning hbegun hverifying
  exact ⟨hlt.trans_le hnext, hrunning, fun hmem => hheld (hitems hmem), hbegun, hverifying, hasked ▸ hsettled⟩

/-- The tokens, what was seen, and what is asked of a job that is not there yet do not matter. -/
theorem Sound.reseen (h : Sound w) (cancelled : Finset ExportJobId) (sightings : List Sighting)
    {asked : ExportJobId → Bool} (hasked : ∀ id < w.queue.nextId, asked id = w.asked id) :
    Sound { queue := { w.queue with cancelled := cancelled }, asked := asked, sightings := sightings } where
  jobs id job hjob := by
    have hfits := h.jobs id job hjob
    exact hfits.later rfl le_rfl (fun hmem => hmem) (hasked id hfits.lt)
  items_nodup := h.items_nodup
  items_lt := h.items_lt
  asked work hwork := (hasked _ (h.items_lt _ (mem_map_of_mem hwork))).trans (h.asked work hwork)
  measures := h.measures
  outputs := h.outputs

variable {cancelled : Finset ExportJobId}

section

variable {work : WorkItem}

/-- The worker changes its job and moves on, with its item or without. -/
theorem Sound.turn (h : Sound w) (hitem : w.queue.worker.item = some work)
    {f : ExportJobRecord Video Audio Report → ExportJobRecord Video Audio Report}
    {worker : Worker Video Audio Report}
    (hitem' : worker.item = some work ∨ worker.item = none) (hmeasures : worker.Measures)
    (hterminal : ∀ job, w.queue.jobs.get? work.id = some job →
      (f job.record).state.isTerminal = false → job.record.state.isTerminal = false)
    {w' : Watched Video Audio Report}
    (hw' : w' = { w with
      queue := { w.queue.modify work.id f with worker := worker, cancelled := cancelled } })
    (hfits : ∀ record, Fits w work.id record → Fits w' work.id (f record)) : Sound w' := by
  subst hw'
  have hsub : ∀ other ∈ w.queue.sending ++ w.queue.channel ++ worker.item.toList,
      other ∈ w.queue.sending ++ w.queue.channel ++ w.queue.worker.item.toList := by
    intro other hother
    rw [hitem]
    rcases hitem' with hitem' | hitem'
    · rwa [hitem'] at hother
    · rw [hitem', Option.toList_none, append_nil] at hother
      exact mem_append_left _ hother
  have hitems : ∀ id ∈ (w.queue.sending ++ w.queue.channel ++ worker.item.toList).map WorkItem.id,
      id ∈ w.queue.items := by
    intro id hid
    obtain ⟨other, hother, rfl⟩ := mem_map.mp hid
    exact mem_map_of_mem (hsub other hother)
  refine
    { jobs := ?_
      items_nodup := ?_
      items_lt := fun id hid => h.items_lt id (hitems id hid)
      asked := fun other hother => h.asked other (hsub other hother)
      measures := hmeasures
      outputs := ?_ }
  · intro id job hjob
    rw [show _ = _ from QueueState.modify_get? id] at hjob
    obtain ⟨job, hold, rfl⟩ := Option.map_eq_some_iff.mp hjob
    by_cases hid : id = work.id
    · subst hid
      rw [if_pos rfl]
      exact hfits job.record (h.jobs _ job hold)
    · rw [if_neg hid]
      exact (h.jobs id job hold).other hid hitem rfl rfl hitem' hitems
  · refine Sublist.nodup ?_ h.items_nodup
    refine List.Sublist.map _ (Sublist.append_left ?_ _)
    rcases hitem' with hitem' | hitem' <;> simp [hitem, hitem']
  · exact h.outputs.modify hterminal

/-- The worker moves on and leaves the jobs alone. -/
theorem Sound.goto (h : Sound w) (hitem : w.queue.worker.item = some work) {worker : Worker Video Audio Report}
    (hitem' : worker.item = some work) (hmeasures : worker.Measures)
    (hbegun : worker.hasBegun = true → w.queue.worker.hasBegun = true)
    (hverifying : w.queue.worker.isVerifying = true → worker.isVerifying = true) :
    Sound { w with queue := w.queue.goto worker } := by
  have hitems : (w.queue.goto worker).items = w.queue.items := by
    rw [QueueState.items, QueueState.items, hitem, QueueState.goto, hitem']
  have hworker : (w.queue.goto worker).worker.item.map WorkItem.id =
      w.queue.worker.item.map WorkItem.id := by
    rw [hitem, QueueState.goto, hitem']
  exact
    { jobs := fun id job hjob =>
        have hfits := h.jobs id job hjob
        { lt := hfits.lt
          running := fun hrun => hworker.trans (hfits.running hrun)
          held := fun hmem => hfits.held (hitems ▸ hmem)
          begun := fun hat hid => hfits.begun (hbegun hat) (hworker ▸ hid)
          verifying := fun hmark =>
            ⟨hverifying (hfits.verifying hmark).1, hworker.trans (hfits.verifying hmark).2⟩
          settled := hfits.settled }
      items_nodup := hitems ▸ h.items_nodup
      items_lt := hitems ▸ h.items_lt
      asked := by
        intro other hother
        apply h.asked other
        rwa [QueueState.goto, hitem', ← hitem] at hother
      measures := hmeasures
      outputs := h.outputs }

/-- The worker's own job, while the worker is with it. -/
theorem Fits.atWork (h : Fits w work.id record) (hitem : w.queue.worker.item = some work) :
    record.state ≠ .completed ∧ record.state ≠ .failed := by
  apply h.held
  rw [QueueState.items, hitem]
  simp

/-- The worker's item is nowhere else. -/
theorem Sound.gone (h : Sound w) (hitem : w.queue.worker.item = some work) :
    work.id ∉ (w.queue.sending ++ w.queue.channel).map WorkItem.id := by
  have hnodup := h.items_nodup
  rw [QueueState.items, hitem, map_append, nodup_append] at hnodup
  intro hmem
  exact hnodup.2.2 _ hmem work.id (by simp) rfl

end

theorem ExportJobState.open_iff {state : ExportJobState} :
    state.isTerminal = false ↔ state = .queued ∨ state = .running := by
  cases state <;> simp [isTerminal]

/-- The worker settles its job and lets go of its item. -/
theorem Sound.settle (h : Sound w) {work : WorkItem} (hitem : w.queue.worker.item = some work)
    {f : ExportJobRecord Video Audio Report → ExportJobRecord Video Audio Report}
    (hterminal : ∀ record, (f record).state.isTerminal = true)
    (hverifying : ∀ record, Fits w work.id record → (f record).verifying = false)
    (hsettled : ∀ record, Fits w work.id record → (f record).state = .completed → Settled work.verify (f record)) :
    Sound { w with
      queue := { w.queue.modify work.id f with worker := .idle, cancelled := cancelled } } := by
  have hidle : (Worker.idle : Worker Video Audio Report).Measures := trivial
  refine h.turn hitem (.inr rfl) hidle ?_ rfl ?_
  · intro job _ hopen
    rw [hterminal job.record] at hopen
    cases hopen
  · intro record hfits
    have hverify : w.asked work.id = work.verify := by
      apply h.asked
      rw [hitem]
      simp
    exact
      { lt := hfits.lt
        running := by
          intro hrun
          have hopen := hterminal record
          rw [hrun] at hopen
          cases hopen
        held := by
          intro hmem
          refine absurd ?_ (h.gone hitem)
          simpa [QueueState.items, Worker.item] using hmem
        begun := by
          intro hbegun
          cases hbegun
        verifying := by
          intro hmark
          rw [hverifying record hfits] at hmark
          cases hmark
        settled := by
          rw [hverify]
          exact hsettled record hfits }

/-- A job that is not measured now is not marked so. -/
theorem Fits.not_verifying {id : ExportJobId} (h : Fits w id record) (hworker : w.queue.worker.isVerifying = false) :
    record.verifying = false := by
  by_contra hmark
  rw [Bool.not_eq_false] at hmark
  have htrue := (h.verifying hmark).1
  rw [hworker] at htrue
  cases htrue

section Worker

variable (h : Sound w)

include h

section

variable {work : WorkItem}

theorem Sound.markCancelled (hitem : w.queue.worker.item = some work)
    (hworker : w.queue.worker.isVerifying = false) (reason audioReason : Option String) :
    Sound { w with
      queue := (w.queue.markCancelled work.id reason audioReason).goto .idle } := by
  obtain ⟨cancelled, heq⟩ := w.queue.markCancelled_eq work.id reason audioReason
  rw [heq]
  refine h.settle hitem (f := fun record => record.markCancelled reason audioReason) ?_ ?_ ?_
  · intro record
    rfl
  · intro record hfits
    exact hfits.not_verifying hworker
  · intro record _ hstate
    cases hstate

theorem Sound.markFailed (hitem : w.queue.worker.item = some work)
    (hworker : w.queue.worker.isVerifying = false) (error : String) :
    Sound { w with
      queue := (w.queue.markFailed work.id error).goto .idle } := by
  refine h.settle hitem (f := fun record => if record.state = .cancelled then record
    else { record with state := .failed, error := some error }) ?_ ?_ ?_
  · intro record
    by_cases hstate : record.state = .cancelled
    · rw [if_pos hstate, hstate]
      rfl
    · rw [if_neg hstate]
      rfl
  · intro record hfits
    have hmark := hfits.not_verifying hworker
    by_cases hstate : record.state = .cancelled
    · rwa [if_pos hstate]
    · rwa [if_neg hstate]
  · intro record hfits hstate
    by_cases hcancelled : record.state = .cancelled
    · rw [if_pos hcancelled, hcancelled] at hstate
      cases hstate
    · rw [if_neg hcancelled] at hstate
      cases hstate

theorem Sound.markCompleted {verification : VerificationOutcome Video}
    {audio : AudioVerificationOutcome Audio} {report : Option Report}
    (hworker : w.queue.worker = .measured work verification audio report) :
    Sound { w with
      queue := (w.queue.markCompleted work.id verification audio report).goto .idle } := by
  have hmeasures := h.measures
  refine h.settle (show w.queue.worker.item = some work by rw [hworker]; rfl) ?_ ?_ ?_
  · intro record
    by_cases hstate : record.state = .cancelled
    · rw [hstate]
      rfl
    · rw [if_neg hstate]
      rfl
  · intro record _
    by_cases hstate : record.state = .cancelled
    · rw [if_pos hstate]
    · rw [if_neg hstate]
  · intro record _ hstate
    by_cases hcancelled : record.state = .cancelled
    · rw [if_pos hcancelled] at hstate
      rw [show record.state = .completed from hstate] at hcancelled
      cases hcancelled
    · rw [if_neg hcancelled]
      cases verification <;> cases audio <;>
        exact ⟨by simp_all [Worker.Measures], by simp_all [Worker.Measures], rfl⟩

/-- The worker takes the first item of the channel. -/
theorem Sound.receive (hworker : w.queue.worker = .idle) {channel : List WorkItem}
    (hchannel : w.queue.channel = work :: channel) :
    Sound { w with
      queue := { w.queue with channel := channel, worker := .received work } } := by
  have hperm : (w.queue.sending ++ channel ++ [work]).Perm
      (w.queue.sending ++ w.queue.channel ++ w.queue.worker.item.toList) := by
    rw [hworker, hchannel, Worker.item, Option.toList_none, append_nil, append_assoc]
    exact Perm.append_left _ (perm_append_singleton _ _)
  have hitems : ((w.queue.sending ++ channel ++ [work]).map WorkItem.id).Perm w.queue.items := hperm.map _
  have hnone (id : ExportJobId) : w.queue.worker.item.map WorkItem.id ≠ some id := by
    rw [hworker]
    nofun
  exact
    { jobs := fun id job hjob =>
        have hfits := h.jobs id job hjob
        { lt := hfits.lt
          running := fun hrun => absurd (hfits.running hrun) (hnone id)
          held := fun hmem => hfits.held (hitems.mem_iff.mp hmem)
          begun := nofun
          verifying := fun hmark => absurd (hfits.verifying hmark).2 (hnone id)
          settled := hfits.settled }
      items_nodup := hitems.nodup_iff.mpr h.items_nodup
      items_lt := fun id hid => h.items_lt id (hitems.mem_iff.mp hid)
      asked := fun other hother => h.asked other (hperm.mem_iff.mp hother)
      measures := trivial
      outputs := h.outputs }

/-- The worker starts its job. -/
theorem Sound.start (hworker : w.queue.worker = .clear work)
    {job : StoredJob Video Audio Report} (hjob : w.queue.jobs.get? work.id = some job)
    (hstate : job.record.state = .queued) :
    Sound { w with
      queue := (w.queue.modify work.id fun record => { record with state := .running }).goto (.started work) } := by
  have hstarted : (Worker.started work : Worker Video Audio Report).Measures := trivial
  refine h.turn (show w.queue.worker.item = some work by rw [hworker]; rfl) (.inl rfl) hstarted ?_ rfl ?_
  · intro job' hjob' _
    rw [hjob] at hjob'
    obtain rfl := Option.some.inj hjob'
    rw [hstate]
    rfl
  · intro record hfits
    exact
      { lt := hfits.lt
        running := fun _ => rfl
        held := fun _ => ⟨nofun, nofun⟩
        begun := fun _ _ => nofun
        verifying := by
          intro hmark
          have hwas := (hfits.verifying hmark).1
          rw [hworker] at hwas
          cases hwas
        settled := nofun }

/-- The worker marks its job as being verified. -/
theorem Sound.vouch {report : Option Report} (hworker : w.queue.worker = .vouching work report) :
    Sound { w with
      queue := (w.queue.setVerifying work.id true).goto (.verifying work report) } := by
  have hitem : w.queue.worker.item = some work := by rw [hworker]; rfl
  have hverifying : (Worker.verifying work report : Worker Video Audio Report).Measures := trivial
  refine h.turn hitem (.inl rfl) hverifying ?_ rfl ?_
  · intro job _ hopen
    exact hopen
  · intro record hfits
    have hbegun : record.state ≠ .queued := by
      apply hfits.begun
      · rw [hworker]
        rfl
      · rw [hitem]
        rfl
    exact
      { lt := hfits.lt
        running := fun _ => rfl
        held := fun _ => hfits.atWork hitem
        begun := fun _ _ => hbegun
        verifying := fun _ => ⟨rfl, rfl⟩
        settled := fun hstate => absurd hstate (hfits.atWork hitem).1 }

end

omit h in
theorem measures_verifyOutput (outside : Outside Video Audio Report) (work : WorkItem)
    (audio : AudioVerificationOutcome Audio) (report : Option Report) :
    (Worker.measured work (verifyOutput outside work.verify) audio report).Measures := by
  rw [verifyOutput]
  rcases hverify : work.verify with _ | _
  · exact hverify
  · rcases outside.verifyDeliveryOutput with reason | measurement
    · exact hverify
    · exact hverify

/-- A step of the worker keeps what holds. -/
theorem Sound.work (outside : Outside Video Audio Report) : Sound { w with queue := w.queue.work outside } := by
  rw [QueueState.work]
  cases hworker : w.queue.worker with
  | idle =>
    rcases hchannel : w.queue.channel with _ | ⟨work, channel⟩
    · exact h
    · exact h.receive hworker hchannel
  | received work =>
    dsimp only
    have hitem : w.queue.worker.item = some work := by rw [hworker]; rfl
    by_cases hcancelled : work.id ∈ w.queue.cancelled
    · rw [if_pos hcancelled]
      exact h.goto hitem rfl trivial nofun (by rw [hworker]; nofun)
    · rw [if_neg hcancelled]
      exact h.goto hitem rfl trivial nofun (by rw [hworker]; nofun)
  | clear work =>
    dsimp only
    have hitem : w.queue.worker.item = some work := by rw [hworker]; rfl
    have hskip : Sound { w with queue := w.queue.goto (.skipping work) } :=
      h.goto hitem rfl trivial nofun (by rw [hworker]; nofun)
    rw [QueueState.markRunning]
    rcases hjob : w.queue.jobs.get? work.id with _ | job
    · exact hskip
    · by_cases hstart : job.record.state ≠ .queued ∨ work.id ∈ w.queue.cancelled
      · dsimp only
        rw [if_pos hstart]
        exact hskip
      · dsimp only
        rw [if_neg hstart]
        rw [not_or, not_not] at hstart
        exact h.start hworker hjob hstart.1
  | skipping work =>
    exact h.markCancelled (by rw [hworker]; rfl) (by rw [hworker]; rfl) none none
  | started work =>
    have hitem : w.queue.worker.item = some work := by rw [hworker]; rfl
    rcases outside.mediaPreflight <|> outside.lutPreflight <|> outside.workerOutput with _ | error
    all_goals exact h.goto hitem rfl trivial (fun _ => by rw [hworker]; rfl) (by rw [hworker]; nofun)
  | encoding work =>
    exact h.goto (show w.queue.worker.item = some work by rw [hworker]; rfl) rfl trivial (fun _ => by rw [hworker]; rfl)
      (by rw [hworker]; nofun)
  | encoded work result =>
    dsimp only
    have hitem : w.queue.worker.item = some work := by rw [hworker]; rfl
    by_cases hcancelled : work.id ∈ w.queue.cancelled
    · rw [if_pos hcancelled]
      exact h.goto hitem rfl trivial (fun _ => by rw [hworker]; rfl) (by rw [hworker]; nofun)
    · rw [if_neg hcancelled]
      exact h.goto hitem rfl trivial (fun _ => by rw [hworker]; rfl) (by rw [hworker]; nofun)
  | abandoning work result =>
    exact h.markCancelled (by rw [hworker]; rfl) (by rw [hworker]; rfl) _ _
  | settling work result =>
    have hitem : w.queue.worker.item = some work := by rw [hworker]; rfl
    have hmove (worker : Worker Video Audio Report) (hitem' : worker.item = some work) (hmeasures : worker.Measures) :
        Sound { w with queue := w.queue.goto worker } :=
      h.goto hitem hitem' hmeasures (fun _ => by rw [hworker]; rfl) (by rw [hworker]; nofun)
    cases result with
    | finished report =>
      rcases outside.sourceIdentityDrift with _ | reason
      all_goals exact hmove _ rfl trivial
    | cancelled | failed error | panicked payload => exact hmove _ rfl trivial
  | vouching work report => exact h.vouch hworker
  | verifying work report =>
    refine h.goto (show w.queue.worker.item = some work by rw [hworker]; rfl) rfl ?_ (fun _ => by rw [hworker]; rfl)
      fun _ => rfl
    exact measures_verifyOutput outside work _ report
  | measured work verification audio report => exact h.markCompleted hworker
  | failing work error | quarantining work error =>
    exact h.markFailed (by rw [hworker]; rfl) (by rw [hworker]; rfl) error

end Worker

/-! ## The callers keep what holds -/

/-- A caller changes a job under the worker. -/
theorem Sound.edit (h : Sound w) {id : ExportJobId}
    {f : ExportJobRecord Video Audio Report → ExportJobRecord Video Audio Report}
 (hstate : ∀ record, (f record).state = record.state ∨ (f record).state = .cancelled)
    (hterminal : ∀ job, w.queue.jobs.get? id = some job →
      (f job.record).state.isTerminal = false → job.record.state.isTerminal = false)
    (hverifying : ∀ record, (f record).verifying = record.verifying)
    (hsettled : ∀ asked record, (f record).state = .completed → Settled asked record → Settled asked (f record)) :
    Sound { w with
      queue := { w.queue.modify id f with cancelled := cancelled } } := by
  refine
    { jobs := ?_
      items_nodup := h.items_nodup
      items_lt := h.items_lt
      asked := h.asked
      measures := h.measures
      outputs := h.outputs.modify hterminal }
  intro id' job hjob
  rw [show _ = _ from QueueState.modify_get? id'] at hjob
  obtain ⟨job, hold, rfl⟩ := Option.map_eq_some_iff.mp hjob
  have hfits := h.jobs id' job hold
  by_cases hid : id' = id
  · rw [if_pos hid]
    have hback {state : ExportJobState} (hne : state ≠ .cancelled)
        (heq : (f job.record).state = state) : job.record.state = state := by
      rcases hstate job.record with hsame | hcancelled
      · rw [← hsame, heq]
      · rw [hcancelled] at heq
        exact absurd heq.symm hne
    exact
      { lt := hfits.lt
        running := fun hrun => hfits.running (hback nofun hrun)
        held := fun hmem => ⟨fun heq => (hfits.held hmem).1 (hback nofun heq),
          fun heq => (hfits.held hmem).2 (hback nofun heq)⟩
        begun := fun hbegun hat heq => hfits.begun hbegun hat (hback nofun heq)
        verifying := fun hmark => hfits.verifying ((hverifying _).symm.trans hmark)
        settled := fun heq => hsettled _ _ heq (hfits.settled (hback nofun heq)) }
  · rw [if_neg hid]
    exact hfits.later rfl le_rfl (fun hmem => hmem) rfl

theorem Sound.cancel (h : Sound w) (id : ExportJobId) : Sound { w with queue := w.queue.cancel id } := by
  rw [QueueState.cancel]
  rcases hjob : w.queue.jobs.get? id with _ | job
  · exact h
  · by_cases hdone : job.record.state.isTerminal
    · simp only [hdone, if_true]
      exact h
    · simp only [hdone, Bool.false_eq_true, if_false]
      exact h.edit (fun _ => .inr rfl) nofun (fun _ => rfl) fun _ _ => nofun

theorem Sound.setProgress (h : Sound w) (id : ExportJobId) (progress : ExportJobProgress) :
    Sound { w with queue := w.queue.setProgress id progress } := by
  have hedit : Sound { w with
      queue := { w.queue.modify id fun record => record.setProgress progress with
        cancelled := w.queue.cancelled } } :=
    h.edit (fun _ => .inl rfl) (fun _ _ hopen => hopen) (fun _ => rfl)
      fun _ _ _ hsettled => ⟨hsettled.measured, hsettled.unasked, hsettled.audio⟩
  exact hedit

/-- A job is put in the table: it has a new id and no other open job has its path. -/
theorem Sound.insert (h : Sound w) {outputPath outputKey : String} {verify : Bool} {s : QueueState Video Audio Report}
    (hinsert : w.queue.insert outputPath outputKey verify = .ok (record, s)) :
    Sound { w with
      queue := s
      asked := fun id => if id = w.queue.nextId then verify else w.asked id } := by
  unfold QueueState.insert at hinsert
  split_ifs at hinsert with howns hfull
  obtain ⟨rfl, rfl⟩ := Prod.mk.inj (Except.ok.inj hinsert)
  have hnew : w.queue.nextId ∉ w.queue.items := fun hmem => lt_irrefl _ (h.items_lt _ hmem)
  have hperm : (w.queue.sending ++ [{ id := w.queue.nextId, outputPath, verify }] ++
      w.queue.channel ++ w.queue.worker.item.toList : List WorkItem).Perm
      ({ id := w.queue.nextId, outputPath, verify } ::
        (w.queue.sending ++ w.queue.channel ++ w.queue.worker.item.toList)) := by
    rw [append_assoc, append_assoc, append_assoc]
    exact perm_middle
  have hitems := hperm.map WorkItem.id
  have hother {id : ExportJobId} (hid : id ≠ w.queue.nextId)
      (hmem : id ∈ (w.queue.sending ++ [{ id := w.queue.nextId, outputPath, verify }] ++
        w.queue.channel ++ w.queue.worker.item.toList : List WorkItem).map WorkItem.id) :
      id ∈ w.queue.items := by
    rcases mem_cons.mp (hitems.mem_iff.mp hmem) with heq | hmem
    · exact absurd heq hid
    · exact hmem
  refine
    { jobs := ?_
      items_nodup := hitems.nodup_iff.mpr (nodup_cons.mpr ⟨hnew, h.items_nodup⟩)
      items_lt := ?_
      asked := ?_
      measures := h.measures
      outputs := ?_ }
  · intro id job hjob
    rw [get?_insert] at hjob
    by_cases hid : id = w.queue.nextId
    · rw [if_pos hid] at hjob
      obtain rfl := Option.some.inj hjob
      exact
        { lt := hid ▸ Nat.lt_succ_self _
          running := nofun
          held := fun _ => ⟨nofun, nofun⟩
          begun := by
            intro _ hat
            refine absurd ?_ hnew
            obtain ⟨work, hwork, hsame⟩ := Option.map_eq_some_iff.mp hat
            rw [← hid, ← hsame, QueueState.items, hwork]
            simp
          verifying := nofun
          settled := nofun }
    · rw [if_neg hid] at hjob
      exact (h.jobs id job hjob).later rfl (Nat.le_succ _) (hother hid) (if_neg hid)
  · intro id hmem
    by_cases hid : id = w.queue.nextId
    · exact hid ▸ Nat.lt_succ_self _
    · exact (h.items_lt id (hother hid hmem)).trans (Nat.lt_succ_self _)
  · intro work hwork
    rcases mem_cons.mp (hperm.mem_iff.mp hwork) with rfl | hwork
    · exact if_pos rfl
    · have hid : work.id ≠ w.queue.nextId := by
        intro heq
        exact hnew (heq ▸ mem_map_of_mem hwork)
      dsimp only
      rw [if_neg hid]
      exact h.asked work hwork
  · -- the new job is the only one at its path, or the insertion would have been refused
    have hfree {id : ExportJobId} {job : StoredJob Video Audio Report}
        (hjob : w.queue.jobs.get? id = some job) (hopen : job.record.state.isTerminal = false) :
        job.outputKey ≠ outputKey := by
      intro hkey
      refine howns ⟨id, ?_, job, hjob, hopen, hkey⟩
      rw [KeyedMap.mem_keys, hjob]
      rfl
    intro left right job job' hjob hjob' hopen hopen' hkey
    rw [get?_insert] at hjob hjob'
    by_cases hleft : left = w.queue.nextId
    · by_cases hright : right = w.queue.nextId
      · rw [hleft, hright]
      · rw [if_pos hleft] at hjob
        rw [if_neg hright] at hjob'
        obtain rfl := Option.some.inj hjob
        exact absurd hkey.symm (hfree hjob' hopen')
    · by_cases hright : right = w.queue.nextId
      · rw [if_neg hleft] at hjob
        rw [if_pos hright] at hjob'
        obtain rfl := Option.some.inj hjob'
        exact absurd hkey (hfree hjob hopen)
      · rw [if_neg hleft] at hjob
        rw [if_neg hright] at hjob'
        exact h.outputs left right job job' hjob hjob' hopen hopen' hkey

/-- The item that a caller sends is one of those between the table and the channel. -/
theorem perm_eraseP_of_find? {works : List WorkItem} {work : WorkItem} {id : ExportJobId}
    (hfind : (works.find? fun other => other.id = id) = some work) :
    work.id = id ∧ (work :: works.eraseP fun other => other.id = id).Perm works := by
  induction works with
  | nil => cases hfind
  | cons other works ih =>
    by_cases hid : other.id = id
    · rw [find?_cons_of_pos (by simpa using hid)] at hfind
      obtain rfl := Option.some.inj hfind
      rw [eraseP_cons_of_pos (by simpa using hid)]
      exact ⟨hid, List.Perm.refl _⟩
    · rw [find?_cons_of_neg (by simpa using hid)] at hfind
      rw [eraseP_cons_of_neg (by simpa using hid)]
      obtain ⟨hwork, hperm⟩ := ih hfind
      exact ⟨hwork, (Perm.swap _ _ _).trans (hperm.cons other)⟩

theorem Sound.send (h : Sound w) {id : ExportJobId} {work : WorkItem}
    (hfind : (w.queue.sending.find? fun other => other.id = id) = some work) :
    Sound { w with queue := (w.queue.send work).2 } := by
  obtain ⟨rfl, hperm⟩ := perm_eraseP_of_find? hfind
  have hpermAll : (work :: (w.queue.sending.eraseP (fun other => other.id = work.id) ++
      w.queue.channel ++ w.queue.worker.item.toList)).Perm
      (w.queue.sending ++ w.queue.channel ++ w.queue.worker.item.toList) := by
    have happend := (hperm.append_right w.queue.channel).append_right w.queue.worker.item.toList
    simpa using happend
  have hitems := hpermAll.map WorkItem.id
  have hnodup := hitems.nodup_iff.mpr h.items_nodup
  rw [QueueState.send]
  by_cases hroom : w.queue.channel.length < w.queue.capacity
  · simp only [hroom, if_true]
    have hperm' : (w.queue.sending.eraseP (fun other => other.id = work.id) ++
        (w.queue.channel ++ [work]) ++ w.queue.worker.item.toList).Perm
        (w.queue.sending ++ w.queue.channel ++ w.queue.worker.item.toList) := by
      refine Perm.trans ?_ hpermAll
      rw [← append_assoc, append_assoc _ [work]]
      exact perm_middle
    have hitems' := hperm'.map WorkItem.id
    exact
      { jobs := fun id job hjob =>
          (h.jobs id job hjob).later rfl le_rfl hitems'.mem_iff.mp rfl
        items_nodup := hitems'.nodup_iff.mpr h.items_nodup
        items_lt := fun id hid => h.items_lt id (hitems'.mem_iff.mp hid)
        asked := fun other hother => h.asked other (hperm'.mem_iff.mp hother)
        measures := h.measures
        outputs := h.outputs }
  · simp only [hroom, if_false]
    have hold {other : ExportJobId} {job : StoredJob Video Audio Report}
        (hjob : (w.queue.jobs.erase work.id).get? other = some job) :
        w.queue.jobs.get? other = some job := by
      rw [get?_erase] at hjob
      by_cases hid : other = work.id
      · rw [if_pos hid] at hjob
        cases hjob
      · rwa [if_neg hid] at hjob
    exact
      { jobs := fun id job hjob =>
          (h.jobs id job (hold hjob)).later rfl le_rfl
            (fun hmem => hitems.mem_iff.mp (mem_cons_of_mem _ hmem)) rfl
        items_nodup := (nodup_cons.mp hnodup).2
        items_lt := fun id hid => h.items_lt id (hitems.mem_iff.mp (mem_cons_of_mem _ hid))
        asked := fun other hother =>
          h.asked other (hpermAll.mem_iff.mp (mem_cons_of_mem _ hother))
        measures := h.measures
        outputs := fun left right job job' hjob hjob' =>
          h.outputs left right job job' (hold hjob) (hold hjob') }

/-- Every step keeps what holds. -/
theorem Sound.step (h : Sound w) (action : Action Video Audio Report) : Sound (w.step action) := by
  have hseen {w' : Watched Video Audio Report} (h : Sound w') (sightings : List Sighting) :
      Sound { w' with sightings := sightings } := h.reseen _ _ fun _ _ => rfl
  cases action with
  | insert outputPath outputKey verify =>
    simp only [Watched.step, QueueState.step]
    rcases hinsert : w.queue.insert outputPath outputKey verify with error | ⟨record, s⟩
    · exact h.reseen _ _ fun id hid => if_neg hid.ne
    · exact hseen (h.insert hinsert) _
  | send id =>
    simp only [Watched.step, QueueState.step]
    split
    · rename_i work hfind
      exact hseen (h.send hfind) _
    · exact hseen h _
  | get id => exact hseen h _
  | cancel id => exact hseen (h.cancel id) _
  | token =>
    simp only [Watched.step, QueueState.step]
    split
    · exact h.reseen _ _ fun _ _ => rfl
    · exact hseen h _
  | progress progress =>
    simp only [Watched.step, QueueState.step]
    split
    · exact hseen (h.setProgress _ progress) _
    · exact hseen h _
  | work outside => exact hseen (h.work outside) _

theorem Sound.run (h : Sound w) (actions : List (Action Video Audio Report)) : Sound (w.run actions) := by
  induction actions generalizing w with
  | nil => exact h
  | cons action actions ih => exact ih (h.step action)

end Kinewright.Export
