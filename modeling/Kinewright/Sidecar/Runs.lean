import Kinewright.Lib.Runs
import Kinewright.Sidecar.Writer

/-!
# Runs of the sidecar writer

What one step does with the jobs, and from it what holds over a run: which file has which bytes, how a
failure is told, and what an acknowledgement means.
-/

namespace Kinewright.Sidecar

open Multiset WriterMessage SidecarWriter List

variable {Path : Type} {s s' : SidecarWriter Path} {r : Results Path} {job : WriterJob Path}
  {action : Action Path}

/-! ## The jobs on their way -/

def WriterMessage.job? : WriterMessage Path → Option (WriterJob Path)
  | .job job => some job
  | .stop => none

/-- The jobs that the thread holds. -/
def Phase.jobs : Phase Path → Multiset (WriterJob Path)
  | .receiving batch _ => batch
  | .draining tail => tail
  | .merging batch latest _ _ => (batch : Multiset (WriterJob Path)) + latest
  | .landing winners _ _ => winners
  | .gone => 0

/-- The thread compares the jobs of a batch. -/
def Phase.isMerging : Phase Path → Bool
  | .merging .. => true
  | _ => false

/-- The jobs that nothing has become of yet. -/
def SidecarWriter.pending (s : SidecarWriter Path) : Multiset (WriterJob Path) :=
  s.numbered + ↑(s.channel.filterMap job?) + s.phase.jobs

def Action.isNumber : Action Path → Bool
  | .number .. => true
  | _ => false

/-- What a step does with a job: it comes in, it goes on, or something becomes of it. -/
inductive Handled [DecidableEq Path] (s s' : SidecarWriter Path) (action : Action Path) : Prop
  | numbered (job : WriterJob Path) (haction : action.isNumber = true) (hseq : job.seq = s.seq)
      (hnext : s'.seq = s.seq + 1)
      (hack : ∀ channel ∈ job.ack, channel = s.submitted.length)
      (hsubmitted : s'.submitted = s.submitted ++ [job]) (hpending : s'.pending = job ::ₘ s.pending)
      (hresults : s'.results = s.results)
  | kept (hseq : s'.seq = s.seq) (hsubmitted : s'.submitted = s.submitted)
      (hpending : s'.pending ≤ s.pending) (hresults : s'.results = s.results)
  | superseded (job other : WriterJob Path) (hseq : s'.seq = s.seq)
      (hsubmitted : s'.submitted = s.submitted) (hpending : s.pending = job ::ₘ s'.pending)
      (hjob : job ∈ s.phase.jobs) (hother : other ∈ s.phase.jobs) (hleft : other ∈ s'.pending)
      (hmerging : s.phase.isMerging) (hpath : other.path = job.path) (hle : job.seq ≤ other.seq)
      (hresults : s'.results = s.results.acknowledge job (.ok ()))
  | landed (job : WriterJob Path) (result : Except WriteError Unit) (hseq : s'.seq = s.seq)
      (hsubmitted : s'.submitted = s.submitted) (hpending : s.pending = job ::ₘ s'.pending)
      (hresults : s'.results = s.results.land job result)
  | taken (hseq : s'.seq = s.seq) (hsubmitted : s'.submitted = s.submitted)
      (hpending : s'.pending = s.pending) (hresults : s'.results = { s.results with
        errors := []
        taken := s.results.taken ++ s.results.errors })

section Steps

variable [DecidableEq Path]

theorem cons_coe_erase {jobs : List (WriterJob Path)} (h : job ∈ jobs) :
    job ::ₘ (↑(jobs.erase job) : Multiset (WriterJob Path)) = jobs := by
  rw [← coe_erase]
  exact cons_erase h

theorem handled_number (path : Path) (bytes : ByteArray) (joins : Bool) :
    Handled s (s.numberOne path bytes joins) (.number path bytes joins) := by
  refine .numbered ⟨path, s.seq, bytes, if joins then some s.submitted.length else none⟩ rfl rfl rfl ?_
    rfl ?_ rfl
  · intro channel hchannel
    cases joins with
    | false => cases hchannel
    | true => exact (Option.some.inj hchannel).symm
  · simp only [pending, numberOne, ← coe_add, coe_singleton, ← singleton_add]
    abel

theorem handled_send (h : job ∈ s.numbered) : Handled s (s.sendOne job) action := by
  have hcons := cons_coe_erase h
  unfold sendOne
  split
  next hgone =>
    refine .kept ?_ ?_ ?_ ?_
    · split <;> rfl
    · split <;> rfl
    · have hle : (↑(s.numbered.erase job) : Multiset (WriterJob Path)) ≤ s.numbered := by
        rw [← hcons]
        exact le_cons_self _ _
      have hless := add_le_add_left (add_le_add_left hle
        (↑(s.channel.filterMap job?) : Multiset (WriterJob Path))) s.phase.jobs
      split
      · exact hless
      · exact hless
    · split <;> rfl
  next hgone =>
    refine .kept rfl rfl ?_ rfl
    apply le_of_eq
    simp only [pending, filterMap_append, List.filterMap_cons, job?, filterMap_nil, ← coe_add, coe_singleton]
    rw [← hcons, ← singleton_add]
    abel

theorem handled_receive (h : s.receiveOne = some s') : Handled s s' action := by
  unfold receiveOne at h
  split at h
  next batch stopping job channel hphase hchannel =>
    cases h
    refine .kept rfl rfl (le_of_eq ?_) rfl
    simp only [pending, hphase, hchannel, Phase.jobs, List.filterMap_cons, job?, ← coe_add, ← cons_coe, ← singleton_add]
    abel
  next batch stopping channel hphase hchannel =>
    cases h
    refine .kept rfl rfl (le_of_eq ?_) rfl
    simp [pending, hphase, hchannel, Phase.jobs, List.filterMap_cons, job?]
  next tail job channel hphase hchannel =>
    cases h
    refine .kept rfl rfl (le_of_eq ?_) rfl
    simp only [pending, hphase, hchannel, Phase.jobs, List.filterMap_cons, job?, ← coe_add, ← cons_coe, ← singleton_add]
    abel
  next tail channel hphase hchannel =>
    cases h
    refine .kept rfl rfl (le_of_eq ?_) rfl
    simp [pending, hphase, hchannel, List.filterMap_cons, job?]
  · cases h

theorem handled_complete (h : s.completeBatch = some s') : Handled s s' action := by
  unfold completeBatch at h
  split at h
  next batch stopping hphase hchannel =>
    split at h
    · cases h
    · cases h
      refine .kept rfl rfl (le_of_eq ?_) rfl
      simp [pending, goto, hphase, Phase.jobs]
  next tail hphase hchannel =>
    cases h
    refine .kept rfl rfl (le_of_eq ?_) rfl
    simp [pending, goto, hphase, Phase.jobs]
  · cases h

theorem handled_merge {batch latest : List (WriterJob Path)} {stopping last : Bool}
    (hphase : s.phase = .merging (job :: batch) latest stopping last) :
    Handled s (s.mergeOne job batch latest stopping last) action := by
  unfold mergeOne
  split
  next hnone =>
    refine .kept rfl rfl (le_of_eq ?_) rfl
    simp only [pending, goto, hphase, Phase.jobs, ← coe_add, ← cons_coe, ← singleton_add]
    abel
  next entry hfind =>
    have hmem := mem_of_find?_eq_some hfind
    have hpath : entry.path = job.path := by simpa using List.find?_some hfind
    have hjobs : s.phase.jobs = ↑(job :: batch) + ↑latest := by rw [hphase, Phase.jobs]
    split
    next hlt =>
      refine .superseded entry job rfl rfl ?_ ?_ ?_ ?_ (by rw [hphase]; rfl) hpath.symm
        (UInt64.le_of_lt hlt) rfl
      · simp only [pending, goto, ackOk, hphase, Phase.jobs, ← coe_add, ← cons_coe]
        rw [← cons_coe_erase hmem]
        simp only [← singleton_add]
        abel
      · simp [hjobs, hmem]
      · simp [hjobs]
      · simp [pending, goto, Phase.jobs]
    next hge =>
      refine .superseded job entry rfl rfl ?_ ?_ ?_ ?_ (by rw [hphase]; rfl) hpath
        (UInt64.not_lt.mp hge) rfl
      · simp only [pending, goto, ackOk, hphase, Phase.jobs, ← cons_coe, ← singleton_add]
        abel
      · simp [hjobs]
      · simp [hjobs, hmem]
      · simp [pending, goto, Phase.jobs, hmem]

/-- Every step handles the jobs in one of these ways. -/
theorem handled_of_step (h : s.step action = some s') : Handled s s' action := by
  cases action with
  | number path bytes joins =>
    cases h
    exact handled_number path bytes joins
  | send job =>
    rw [step] at h
    split at h
    · cases h
      exact handled_send ‹_›
    · cases h
  | stop =>
    cases h
    refine .kept rfl rfl (le_of_eq ?_) rfl
    simp [pending, List.filterMap_cons, job?]
  | receive => exact handled_receive h
  | complete => exact handled_complete h
  | merge =>
    rw [step] at h
    split at h
    · cases h
      exact handled_merge ‹_›
    · cases h
  | sort winners =>
    rw [step] at h
    split at h
    next latest stopping last hphase =>
      split at h
      next hsorted =>
        cases h
        refine .kept rfl rfl (le_of_eq ?_) rfl
        simp only [pending, goto, hphase, Phase.jobs]
        rw [coe_eq_coe.mpr hsorted.1, coe_nil, zero_add]
      · cases h
    · cases h
  | land result =>
    rw [step] at h
    split at h
    next job winners stopping last hphase =>
      cases h
      refine .landed job result rfl rfl ?_ rfl
      simp only [pending, hphase, Phase.jobs, ← cons_coe, ← singleton_add]
      abel
    · cases h
  | finish =>
    rw [step] at h
    split at h
    next stopping last hphase =>
      cases h
      refine .kept rfl rfl (le_of_eq ?_) rfl
      simp only [pending, goto, hphase]
      cases last <;> cases stopping <;> rfl
    · cases h
  | join job =>
    rw [step] at h
    split at h
    · unfold joinOne at h
      split at h
      · cases h
        exact .kept rfl rfl le_rfl rfl
      · split at h
        · cases h
          exact .kept rfl rfl le_rfl rfl
        · cases h
    · cases h
  | takeErrors =>
    cases h
    exact .taken rfl rfl rfl rfl

end Steps

section Results

variable [DecidableEq Path]

/-! ## The files, and how failures are told -/

/-- The file at the path is as it was, or it has the bytes of the job with the highest number of those
that were written to it. -/
def Results.Latest (files : Path → Option ByteArray) (r : Results Path) (path : Path) : Prop :=
  match r.lastWritten.get? path with
  | none => r.files path = files path ∧ ∀ job ∈ r.written, job.path ≠ path
  | some n => ∃ job ∈ r.written, job.path = path ∧ job.seq = n ∧ r.files path = some job.bytes ∧
      ∀ other ∈ r.written, other.path = path → other = job ∨ other.seq < job.seq

/-- The failure of a background job, as it is kept. -/
def background (failure : WriterJob Path × WriteError) : Option (Path × WriteError) :=
  if failure.1.ack = none then some (failure.1.path, failure.2) else none

/-- The failure of a job that is waited for, as it is acknowledged. -/
def awaited (failure : WriterJob Path × WriteError) : Option (WriterJob Path × Except WriteError Unit) :=
  if failure.1.ack = none then none else some (failure.1, .error failure.2)

def isError (ack : WriterJob Path × Except WriteError Unit) : Bool :=
  match ack.2 with
  | .ok () => false
  | .error _ => true

/-- Every failure is told once, in the order in which they came: that of a background job is kept until it
is taken, any other is acknowledged. -/
structure Results.Told (r : Results Path) : Prop where
  background : r.taken ++ r.errors = r.failed.filterMap background
  awaited : r.acks.filter isError = r.failed.filterMap awaited

/-- What holds of the results at every time. -/
structure Results.Sound (files : Path → Option ByteArray) (r : Results Path) : Prop where
  latest : ∀ path, r.Latest files path
  told : r.Told

omit [DecidableEq Path] in
theorem Results.Told.ackOk (h : r.Told) (job : WriterJob Path) : (r.acknowledge job (.ok ())).Told where
  background := h.background
  awaited := by
    rw [Results.acknowledge]
    split
    · exact h.awaited
    · simpa [filter_append, isError] using h.awaited

variable {files : Path → Option ByteArray}

omit [DecidableEq Path] in
theorem Results.Sound.ackOk (h : r.Sound files) (job : WriterJob Path) : (r.acknowledge job (.ok ())).Sound files :=
  ⟨h.latest, h.told.ackOk job⟩

/-- A job whose number is above the last one of its path is the latest. -/
theorem Results.Latest.write (h : ∀ path, r.Latest files path)
    (hnew : ¬ ∃ written ∈ r.lastWritten.get? job.path, job.seq ≤ written) (path : Path) :
    (r.write job).Latest files path := by
  have hpath := h path
  unfold Results.Latest at hpath ⊢
  by_cases heq : path = job.path
  · subst heq
    have hlast : (r.write job).lastWritten.get? job.path = some job.seq := by simp [Results.write]
    rw [hlast]
    refine ⟨job, by simp [Results.write], rfl, rfl, by simp [Results.write], ?_⟩
    intro other hother hsame
    simp only [Results.write, mem_append, List.mem_singleton] at hother
    rcases hother with hother | rfl
    · right
      rcases hget : r.lastWritten.get? job.path with _ | n
      · rw [hget] at hpath
        exact absurd hsame (hpath.2 other hother)
      · rw [hget] at hpath
        obtain ⟨last, _, _, rfl, _, hmax⟩ := hpath
        have hlt : last.seq < job.seq := by
          rw [← UInt64.not_le]
          intro hle
          exact hnew ⟨last.seq, hget, hle⟩
        rcases hmax other hother hsame with rfl | hother
        · exact hlt
        · exact UInt64.lt_trans hother hlt
    · exact .inl rfl
  · have hget : (r.write job).lastWritten.get? path = r.lastWritten.get? path := by
      simp [Results.write, heq]
    have hfile : (r.write job).files path = r.files path := by simp [Results.write, heq]
    rw [hget, hfile]
    have hold (other : WriterJob Path) (hother : other ∈ (r.write job).written)
        (hsame : other.path = path) : other ∈ r.written := by
      simp only [Results.write, mem_append, List.mem_singleton] at hother
      rcases hother with hother | rfl
      · exact hother
      · exact absurd hsame.symm heq
    rcases hlast : r.lastWritten.get? path with _ | n
    · rw [hlast] at hpath
      exact ⟨hpath.1, fun other hother hsame => hpath.2 other (hold other hother hsame) hsame⟩
    · rw [hlast] at hpath
      obtain ⟨last, hmem, hsame, hseq, hbytes, hmax⟩ := hpath
      exact ⟨last, mem_append_left _ hmem, hsame, hseq, hbytes,
        fun other hother hother' => hmax other (hold other hother hother') hother'⟩

omit [DecidableEq Path] in
theorem Results.Told.fail (h : r.Told) (job : WriterJob Path) (error : WriteError) :
    ((r.fail job error).acknowledge job (.error error)).Told := by
  constructor
  · show r.taken ++ (if job.ack = none then r.errors ++ [(job.path, error)] else r.errors) =
      (r.failed ++ [(job, error)]).filterMap Sidecar.background
    rw [filterMap_append, ← h.background]
    by_cases hack : job.ack = none
    all_goals simp [Sidecar.background, hack]
  · show (if job.ack = none then r.acks else r.acks ++ [(job, .error error)]).filter isError =
      (r.failed ++ [(job, error)]).filterMap Sidecar.awaited
    rw [filterMap_append, ← h.awaited]
    by_cases hack : job.ack = none
    · simp [Sidecar.awaited, hack]
    · simp [Sidecar.awaited, hack, filter_append, isError]

theorem Results.Sound.land (h : r.Sound files) (job : WriterJob Path)
    (result : Except WriteError Unit) : (r.land job result).Sound files := by
  unfold Results.land
  split
  · exact h.ackOk job
  next hnew =>
    split
    · have hwrite : (r.write job).Sound files :=
        ⟨.write h.latest hnew, h.told.background, h.told.awaited⟩
      exact hwrite.ackOk job
    next error => exact ⟨h.latest, h.told.fail job error⟩

theorem sound_of_step (h : s.results.Sound files) (hstep : s.step action = some s') : s'.results.Sound files := by
  cases handled_of_step hstep with
  | numbered job haction hseq hnext hack hsubmitted hpending hresults
  | kept hseq hsubmitted hpending hresults =>
    rw [hresults]
    exact h
  | superseded job other hseq hsubmitted hpending hjob hother hleft hmerging hpath hle hresults =>
    rw [hresults]
    exact h.ackOk job
  | landed job result hseq hsubmitted hpending hresults =>
    rw [hresults]
    exact h.land job result
  | taken hseq hsubmitted hpending hresults =>
    rw [hresults]
    refine ⟨h.latest, ?_, h.told.awaited⟩
    rw [append_nil]
    exact h.told.background

end Results

end Kinewright.Sidecar
