import Kinewright.Sidecar.Runs

/-!
# What an acknowledgement means

Every submission is answered once, and by the result of its own job. That its job, or a later one of its
path, has been written then holds as long as no job that is waited for is replaced inside its batch.
-/

namespace Kinewright.Sidecar

open Runs Multiset SidecarWriter Results
open List hiding after map_cons mem_map mem_singleton nodup_cons

variable {Path : Type} [DecidableEq Path] {s s' : SidecarWriter Path} {r r' : Results Path}
  {job : WriterJob Path} {action : Action Path}

/-! ## One step -/

/-- A submission that waits has sent its job, and comes back with the result for its channel or an error. -/
inductive Answered (s s' : SidecarWriter Path) : Prop
  | same (hwaiting : ∀ job ∈ s'.waiting, job ∈ s.waiting ∨ job ∈ s.numbered ∧ job.ack ≠ none)
      (hreturned : s'.returned = s.returned)
  | failed (job : WriterJob Path) (error : WriteError) (hwaiting : ∀ job ∈ s'.waiting, job ∈ s.waiting)
      (hreturned : s'.returned = s.returned ++ [(job, .error error)])
  | joined (job : WriterJob Path) (ack : WriterJob Path × Except WriteError Unit)
      (hjob : job ∈ s.waiting) (hack : ack ∈ s.results.acks) (hchannel : ack.1.ack = job.ack)
      (hwaiting : ∀ job ∈ s'.waiting, job ∈ s.waiting)
      (hreturned : s'.returned = s.returned ++ [(job, ack.2)])

theorem answered_send (h : job ∈ s.numbered) : Answered s (s.sendOne job) := by
  unfold sendOne
  split
  · split
    · exact .same (fun _ h => .inl h) rfl
    · exact .failed job _ (fun _ h => h) rfl
  · refine .same ?_ rfl
    intro other hother
    split at hother
    · exact .inl hother
    next hack =>
      rcases mem_append.mp hother with hother | hother
      · exact .inl hother
      · cases List.mem_singleton.mp hother
        exact .inr ⟨h, hack⟩

theorem answered_join (hjob : job ∈ s.waiting) (h : s.joinOne job = some s') : Answered s s' := by
  have hwaiting : ∀ other ∈ s.waiting.erase job, other ∈ s.waiting := fun other hother => List.mem_of_mem_erase hother
  unfold joinOne at h
  split at h
  next ack hfind =>
    cases h
    have hchannel : ack.1.ack = job.ack := by simpa using List.find?_some hfind
    exact .joined job ack hjob (mem_of_find?_eq_some hfind) hchannel hwaiting rfl
  · split at h
    · cases h
      exact .failed job _ hwaiting rfl
    · cases h

/-- Where a step leaves the thread when it compares jobs: it did before, or its batch has just been
completed. -/
inductive Compares (s s' : SidecarWriter Path) : Action Path → Prop
  | other (action : Action Path) (hphase : s'.phase.isMerging = false) : Compares s s' action
  | still (action : Action Path) (hphase : s.phase.isMerging = true)
      (hjobs : s'.phase.jobs ≤ s.phase.jobs) (hlast : s'.results.lastWritten = s.results.lastWritten) :
      Compares s s' action
  | started (hjobs : s'.phase.jobs = s.phase.jobs)
      (hlast : s'.results.lastWritten = s.results.lastWritten) : Compares s s' .complete

omit [DecidableEq Path] in
theorem compares_same (hphase : s'.phase = s.phase)
    (hlast : s'.results.lastWritten = s.results.lastWritten) : Compares s s' action := by
  rcases hmerging : s.phase.isMerging with _ | _
  · exact .other action (by rw [hphase]; exact hmerging)
  · exact .still action hmerging (by rw [hphase]) hlast

theorem compares_merge {batch latest : List (WriterJob Path)} {stopping last : Bool}
    (hphase : s.phase = .merging (job :: batch) latest stopping last) :
    Compares s (s.mergeOne job batch latest stopping last) .merge := by
  have hmerging : s.phase.isMerging = true := by rw [hphase]; rfl
  unfold mergeOne
  split
  · refine .still _ hmerging (le_of_eq ?_) rfl
    simp only [goto, hphase, Phase.jobs, ← coe_add, ← cons_coe, ← singleton_add]
    abel
  next entry hfind =>
    have hmem := mem_of_find?_eq_some hfind
    split
    · refine .still _ hmerging ?_ rfl
      simp only [goto, hphase, Phase.jobs, ← coe_add, ← cons_coe]
      rw [← cons_coe_erase hmem]
      simp only [← singleton_add]
      refine le_trans (Multiset.le_add_left _ {entry}) (le_of_eq ?_)
      abel
    · refine .still _ hmerging ?_ rfl
      simp only [goto, hphase, Phase.jobs, ← cons_coe]
      exact le_cons_self _ job

omit [DecidableEq Path] in
theorem compares_complete (h : s.completeBatch = some s') : Compares s s' .complete := by
  unfold completeBatch at h
  split at h
  next batch stopping hphase hchannel =>
    split at h
    · cases h
    · cases h
      refine .started ?_ rfl
      simp [goto, hphase, Phase.jobs]
  next tail hphase hchannel =>
    cases h
    refine .started ?_ rfl
    simp [goto, hphase, Phase.jobs]
  · cases h

theorem step_cases (h : s.step action = some s') : Answered s s' ∧ Compares s s' action := by
  have hsame (hwaiting : s'.waiting = s.waiting) (hreturned : s'.returned = s.returned) :
      Answered s s' :=
    .same (fun job hjob => .inl (hwaiting ▸ hjob)) hreturned
  cases action with
  | number path bytes joins | stop | takeErrors =>
    cases h
    exact ⟨hsame rfl rfl, compares_same rfl rfl⟩
  | send job =>
    rw [step] at h
    split at h
    · cases h
      refine ⟨answered_send ‹_›, compares_same ?_ ?_⟩
      all_goals
        unfold sendOne
        split
        · split <;> rfl
        · rfl
    · cases h
  | receive =>
    rw [step, receiveOne] at h
    split at h
    all_goals cases h
    all_goals exact ⟨hsame rfl rfl, .other _ rfl⟩
  | complete =>
    refine ⟨?_, compares_complete h⟩
    rw [step, completeBatch] at h
    split at h
    · split at h
      · cases h
      · cases h
        exact hsame rfl rfl
    · cases h
      exact hsame rfl rfl
    · cases h
  | merge =>
    rw [step] at h
    split at h
    next job batch latest stopping last hphase =>
      cases h
      refine ⟨?_, compares_merge hphase⟩
      unfold mergeOne
      split
      · exact .same (fun _ hjob => .inl hjob) rfl
      · split
        all_goals exact .same (fun _ hjob => .inl hjob) rfl
    · cases h
  | sort winners =>
    rw [step] at h
    split at h
    · split at h
      · cases h
        exact ⟨hsame rfl rfl, .other _ rfl⟩
      · cases h
    · cases h
  | land result =>
    rw [step] at h
    split at h
    · cases h
      exact ⟨hsame rfl rfl, .other _ rfl⟩
    · cases h
  | finish =>
    rw [step] at h
    split at h
    next stopping last hphase =>
      cases h
      refine ⟨hsame rfl rfl, .other _ ?_⟩
      cases last <;> cases stopping <;> rfl
    · cases h
  | join job =>
    rw [step] at h
    split at h
    next hjob =>
      refine ⟨answered_join hjob h, ?_⟩
      unfold joinOne at h
      split at h
      · cases h
        exact compares_same rfl rfl
      · split at h
        · cases h
          exact compares_same rfl rfl
        · cases h
    · cases h

/-! ## Submissions are answered once -/

/-- Two jobs that are waited for have channels of their own. -/
def Apart (job job' : WriterJob Path) : Prop := job.ack = job'.ack → job.ack = none

omit [DecidableEq Path] in
theorem Apart.symm {job' : WriterJob Path} (h : Apart job job') : Apart job' job := fun heq => heq.trans (h heq.symm)

instance : Std.Symm (@Apart Path) := ⟨fun _ _ => Apart.symm⟩

/-- Jobs are told apart by the channels of their acknowledgements, and are acknowledged at most once. -/
structure SidecarWriter.Once (s : SidecarWriter Path) : Prop where
  apart : s.submitted.Pairwise Apart
  below : ∀ job ∈ s.submitted, ∀ channel ∈ job.ack, channel < s.submitted.length
  known : s.pending + ↑(s.results.acks.map Prod.fst) ≤ ↑s.submitted
  awaited : ∀ ack ∈ s.results.acks, ack.1.ack ≠ none
  waiting : ∀ job ∈ s.waiting, job ∈ s.submitted ∧ job.ack ≠ none

omit [DecidableEq Path] in
theorem once_new (files : Path → Option ByteArray) (spawned : Bool) :
    (SidecarWriter.new files spawned).Once where
  apart := .nil
  below job h := by cases h
  known := by cases spawned <;> rfl
  awaited ack h := by cases h
  waiting job h := by cases h

namespace SidecarWriter.Once

variable (h : s.Once)

include h

omit [DecidableEq Path] in
theorem mem_submitted (hjob : job ∈ s.pending) : job ∈ s.submitted :=
  mem_coe.mp (mem_of_le ((Multiset.le_add_right _ _).trans h.known) hjob)

omit [DecidableEq Path] in
theorem acked_submitted {ack : WriterJob Path × Except WriteError Unit} (hack : ack ∈ s.results.acks) :
    ack.1 ∈ s.submitted :=
  mem_coe.mp (mem_of_le ((Multiset.le_add_left _ _).trans h.known) (mem_coe.mpr (List.mem_map_of_mem hack)))

omit [DecidableEq Path] in
/-- The submission that a channel belongs to. -/
theorem eq_of_channel {job' : WriterJob Path} (hjob : job ∈ s.submitted) (hjob' : job' ∈ s.submitted)
    (hwaits : job.ack ≠ none) (hchannel : job.ack = job'.ack) : job = job' := by
  by_contra hne
  exact hwaits (h.apart.forall hjob hjob' hne hchannel)

omit [DecidableEq Path] in
/-- No submission is acknowledged twice. -/
theorem acks_apart : s.results.acks.Pairwise fun ack ack' => ack.1.ack ≠ ack'.1.ack := by
  have hle : (↑(s.results.acks.map Prod.fst) : Multiset (WriterJob Path)) ≤ ↑s.submitted :=
    (Multiset.le_add_left _ _).trans h.known
  obtain ⟨jobs, hperm, hsub⟩ := coe_le.mp hle
  have hjobs : (s.results.acks.map Prod.fst).Pairwise Apart :=
    (hperm.pairwise_iff Apart.symm).mp (h.apart.sublist hsub)
  rw [pairwise_map] at hjobs
  refine hjobs.imp_of_mem ?_
  intro ack ack' hack _ hapart heq
  exact h.awaited ack hack (hapart heq)

omit [DecidableEq Path] in
theorem awaited_waiting (hanswered : Answered s s') : ∀ job ∈ s'.waiting, job ∈ s.submitted ∧ job.ack ≠ none := by
  intro job hjob
  cases hanswered with
  | same hwaiting hreturned =>
    rcases hwaiting job hjob with hold | ⟨hnumbered, hack⟩
    · exact h.waiting job hold
    · refine ⟨h.mem_submitted ?_, hack⟩
      simp [SidecarWriter.pending, hnumbered]
  | failed other error hwaiting hreturned | joined other ack hother hack hchannel hwaiting hreturned =>
    exact h.waiting job (hwaiting job hjob)

end SidecarWriter.Once

omit [DecidableEq Path] in
theorem acks_acknowledge (job : WriterJob Path) (result : Except WriteError Unit) :
    (↑((r.acknowledge job result).acks.map Prod.fst) : Multiset (WriterJob Path)) ≤ job ::ₘ ↑(r.acks.map Prod.fst) ∧
      ((∀ ack ∈ r.acks, ack.1.ack ≠ none) → ∀ ack ∈ (r.acknowledge job result).acks, ack.1.ack ≠ none) := by
  unfold acknowledge
  split
  · exact ⟨le_cons_self _ _, id⟩
  next hack =>
    constructor
    · rw [map_append, ← coe_add, ← singleton_add, add_comm]
      rfl
    · intro hold ack hmem
      rcases mem_append.mp hmem with hmem | hmem
      · exact hold ack hmem
      · cases List.mem_singleton.mp hmem
        exact hack

theorem acks_land (job : WriterJob Path) (result : Except WriteError Unit) :
    (↑((r.land job result).acks.map Prod.fst) : Multiset (WriterJob Path)) ≤ job ::ₘ ↑(r.acks.map Prod.fst) ∧
      ((∀ ack ∈ r.acks, ack.1.ack ≠ none) → ∀ ack ∈ (r.land job result).acks, ack.1.ack ≠ none) := by
  unfold Results.land
  split
  · exact acks_acknowledge job _
  · split
    · exact acks_acknowledge (r := r.write job) job _
    next error => exact acks_acknowledge (r := r.fail job error) job _

theorem SidecarWriter.Once.step (h : s.Once) (hstep : s.step action = some s') : s'.Once := by
  have hwaiting := h.awaited_waiting (step_cases hstep).1
  cases handled_of_step hstep with
  | numbered job haction hseq hnext hack hsubmitted hpending hresults =>
    have hlength : s'.submitted.length = s.submitted.length + 1 := by simp [hsubmitted]
    refine ⟨?_, ?_, ?_, ?_, ?_⟩
    · rw [hsubmitted, pairwise_append]
      refine ⟨h.apart, pairwise_singleton _ _, ?_⟩
      intro old hold new hnew heq
      cases List.mem_singleton.mp hnew
      rw [heq]
      by_contra hsome
      obtain ⟨channel, hchannel⟩ := Option.ne_none_iff_exists'.mp hsome
      have hlt := h.below old hold channel (heq.trans hchannel)
      rw [hack channel hchannel] at hlt
      omega
    · intro other hother channel hchannel
      rw [hsubmitted] at hother
      rcases mem_append.mp hother with hother | hother
      · have hlt := h.below other hother channel hchannel
        omega
      · cases List.mem_singleton.mp hother
        rw [hack channel hchannel]
        omega
    · rw [hpending, hresults, hsubmitted, cons_add, ← coe_add, add_comm, ← singleton_add]
      rw [add_comm (s.submitted : Multiset (WriterJob Path)), add_comm _ s.pending]
      exact add_le_add_right h.known _
    · rw [hresults]
      exact h.awaited
    · intro other hother
      rw [hsubmitted]
      exact ⟨mem_append_left _ (hwaiting other hother).1, (hwaiting other hother).2⟩
  | kept hseq hsubmitted hpending hresults =>
    refine ⟨hsubmitted ▸ h.apart, hsubmitted ▸ h.below, ?_, hresults ▸ h.awaited, hsubmitted ▸ hwaiting⟩
    rw [hsubmitted, hresults]
    exact (add_le_add_left hpending _).trans h.known
  | superseded job other hseq hsubmitted hpending hjob hother hleft hmerging hpath hle hresults =>
    obtain ⟨hacks, hawaited⟩ := acks_acknowledge (r := s.results) job (.ok ())
    rw [← hresults] at hacks hawaited
    refine ⟨hsubmitted ▸ h.apart, hsubmitted ▸ h.below, ?_, hawaited h.awaited, hsubmitted ▸ hwaiting⟩
    have hknown := h.known
    rw [hpending, cons_add, ← add_cons] at hknown
    rw [hsubmitted]
    exact (add_le_add_right hacks _).trans hknown
  | landed job result hseq hsubmitted hpending hresults =>
    obtain ⟨hacks, hawaited⟩ := acks_land (r := s.results) job result
    rw [← hresults] at hacks hawaited
    refine ⟨hsubmitted ▸ h.apart, hsubmitted ▸ h.below, ?_, hawaited h.awaited, hsubmitted ▸ hwaiting⟩
    have hknown := h.known
    rw [hpending, cons_add, ← add_cons] at hknown
    rw [hsubmitted]
    exact (add_le_add_right hacks _).trans hknown
  | taken hseq hsubmitted hpending hresults =>
    refine ⟨hsubmitted ▸ h.apart, hsubmitted ▸ h.below, ?_, ?_, hsubmitted ▸ hwaiting⟩
    · rw [hpending, hsubmitted, hresults]
      exact h.known
    · rw [hresults]
      exact h.awaited

/-! ## What an acknowledgement means -/

/-- The job has been written, or a later one of its path. -/
def Results.Covered (r : Results Path) (job : WriterJob Path) : Prop :=
  ∃ written ∈ r.written, written.path = job.path ∧ (written = job ∨ job.seq < written.seq)

/-- A job that is waited for is not replaced by a later one of its path, unless a number above its own was
written before. -/
def Heeds (lastWritten : KeyedMap Path UInt64) (jobs : Multiset (WriterJob Path)) : Prop :=
  ∀ job ∈ jobs, job.ack ≠ none → ∀ other ∈ jobs, other.path = job.path → job.seq < other.seq →
    ∃ n ∈ lastWritten.get? job.path, job.seq < n

/-- The counter does not start again at zero, and every batch heeds the jobs that are waited for. -/
def Heeded (s : SidecarWriter Path) : Action Path → Prop
  | .number _ _ _ => s.seq + 1 ≠ 0
  | .complete => Heeds s.results.lastWritten s.phase.jobs
  | _ => True

omit [DecidableEq Path] in
theorem Results.Covered.mono (h : r.Covered job) (hwritten : ∀ job ∈ r.written, job ∈ r'.written) : r'.Covered job := by
  obtain ⟨written, hmem, hcovers⟩ := h
  exact ⟨written, hwritten written hmem, hcovers⟩

theorem written_land (job : WriterJob Path) (result : Except WriteError Unit) :
    (r.land job result).written = r.written ∨ (r.land job result).written = r.written ++ [job] := by
  unfold Results.land
  split
  · exact .inl rfl
  · split
    · exact .inr rfl
    · exact .inl rfl

/-- Numbers tell the jobs apart, and everything that was acknowledged or came back as written is covered. -/
structure SidecarWriter.Covers (s : SidecarWriter Path) : Prop where
  numbers : (s.submitted.map WriterJob.seq).Nodup
  below : ∀ job ∈ s.submitted, job.seq < s.seq
  fresh : s.pending + ↑s.results.written ≤ ↑s.submitted
  acked : ∀ ack ∈ s.results.acks, ack.2 = .ok () → s.results.Covered ack.1
  returned : ∀ entry ∈ s.returned, entry.2 = .ok () → s.results.Covered entry.1
  heeds : s.phase.isMerging = true → Heeds s.results.lastWritten s.phase.jobs

omit [DecidableEq Path] in
theorem covers_new (files : Path → Option ByteArray) (spawned : Bool) :
    (SidecarWriter.new files spawned).Covers where
  numbers := nodup_nil
  below job h := by cases h
  fresh := by cases spawned <;> rfl
  acked ack h := by cases h
  returned entry h := by cases h
  heeds h := by cases spawned <;> cases h

section Covering

variable (hcovers : s.Covers) {files : Path → Option ByteArray} (hsound : s.results.Sound files)

include hcovers

variable {rest : Multiset (WriterJob Path)}

omit [DecidableEq Path] in
/-- The number of a job that goes out of the pending ones is not that of one that stays, or was written. -/
theorem SidecarWriter.Covers.seq_ne (hpending : s.pending = job ::ₘ rest) {other : WriterJob Path}
    (hother : other ∈ rest ∨ other ∈ s.results.written) :
    job.seq ≠ other.seq := by
  have hle := map_le_map (f := WriterJob.seq) hcovers.fresh
  rw [map_coe] at hle
  have hnodup := nodup_of_le hle (coe_nodup.mpr hcovers.numbers)
  rw [hpending, cons_add, map_cons, nodup_cons] at hnodup
  intro heq
  refine hnodup.1 (mem_map.mpr ⟨other, ?_, heq.symm⟩)
  rw [mem_add]
  exact hother

omit hcovers [DecidableEq Path] in
include hsound in
/-- The last number of the path was written, so a job with a smaller one is covered. -/
theorem covered_of_lastWritten {n : UInt64} (hn : s.results.lastWritten.get? job.path = some n)
    (hlt : job.seq < n) : s.results.Covered job := by
  have hlatest := hsound.latest job.path
  rw [Latest, hn] at hlatest
  obtain ⟨written, hmem, hpath, rfl, _⟩ := hlatest
  exact ⟨written, hmem, hpath, .inr hlt⟩

include hsound

omit [DecidableEq Path] in
/-- A job that is replaced while it is waited for is covered. -/
theorem covered_of_superseded {other : WriterJob Path} (hmerging : s.phase.isMerging = true)
    (hjob : job ∈ s.phase.jobs) (hother : other ∈ s.phase.jobs)
    (hpending : s.pending = job ::ₘ rest) (hleft : other ∈ rest) (hpath : other.path = job.path)
    (hle : job.seq ≤ other.seq) (hack : job.ack ≠ none) : s.results.Covered job := by
  have hne := hcovers.seq_ne hpending (.inl hleft)
  have hlt : job.seq < other.seq := UInt64.lt_of_le_of_ne hle hne
  obtain ⟨n, hn, hnumber⟩ := hcovers.heeds hmerging job hjob hack other hother hpath hlt
  exact covered_of_lastWritten hsound hn hnumber

/-- A job that is acknowledged as written when it is landed is covered. -/
theorem covered_of_land (hpending : s.pending = job ::ₘ rest) (result : Except WriteError Unit)
    {ack : WriterJob Path × Except WriteError Unit} (hack : ack ∈ (s.results.land job result).acks)
    (hok : ack.2 = .ok ()) :
    (s.results.land job result).Covered ack.1 := by
  have hold (hmem : ack ∈ s.results.acks) : (s.results.land job result).Covered ack.1 := by
    refine (hcovers.acked ack hmem hok).mono fun other hother => ?_
    rcases written_land (r := s.results) job result with h | h
    · rw [h]
      exact hother
    · rw [h]
      exact mem_append_left _ hother
  have hacknowledge {r : Results Path} {answer : Except WriteError Unit}
      (hmem : ack ∈ (r.acknowledge job answer).acks) : ack ∈ r.acks ∨ ack = (job, answer) := by
    rw [acknowledge] at hmem
    split at hmem
    · exact .inl hmem
    · simpa using hmem
  unfold Results.land at hack hold ⊢
  split at hack
  next hstale =>
    rw [if_pos hstale] at hold ⊢
    rcases hacknowledge hack with hmem | rfl
    · exact hold hmem
    · obtain ⟨n, hn, hle⟩ := hstale
      have hlatest := hsound.latest job.path
      rw [Latest, hn] at hlatest
      obtain ⟨written, hmem, hpath, rfl, _⟩ := hlatest
      exact ⟨written, hmem, hpath, .inr (UInt64.lt_of_le_of_ne hle (hcovers.seq_ne hpending (.inr hmem)))⟩
  next hnew =>
    rw [if_neg hnew] at hold ⊢
    cases result with
    | ok =>
      rcases hacknowledge hack with hmem | rfl
      · exact hold hmem
      · exact ⟨job, mem_append_right _ (List.mem_singleton_self job), rfl, .inl rfl⟩
    | error error =>
      rcases hacknowledge hack with hmem | rfl
      · exact hold hmem
      · cases hok

end Covering

omit [DecidableEq Path] in
theorem Heeds.mono {lastWritten : KeyedMap Path UInt64} {jobs jobs' : Multiset (WriterJob Path)}
    (h : Heeds lastWritten jobs) (hle : jobs' ≤ jobs) : Heeds lastWritten jobs' :=
  fun job hjob hack other hother =>
    h job (mem_of_le hle hjob) hack other (mem_of_le hle hother)

omit [DecidableEq Path] in
theorem heeds_of_step (hcovers : s.Covers) (hcompares : Compares s s' action) (hheeded : Heeded s action)
    (hmerging : s'.phase.isMerging = true) : Heeds s'.results.lastWritten s'.phase.jobs := by
  cases hcompares with
  | other action hphase =>
    rw [hphase] at hmerging
    cases hmerging
  | still action hphase hjobs hlast =>
    rw [hlast]
    exact (hcovers.heeds hphase).mono hjobs
  | started hjobs hlast =>
    rw [hlast, hjobs]
    exact hheeded

theorem written_of_handled (h : Handled s s' action) : ∀ job ∈ s.results.written, job ∈ s'.results.written := by
  intro other hother
  cases h with
  | numbered job haction hseq hnext hack hsubmitted hpending hresults
  | kept hseq hsubmitted hpending hresults | taken hseq hsubmitted hpending hresults => rwa [hresults]
  | superseded job _ hseq hsubmitted hpending hjob _ hleft hmerging hpath hle hresults =>
    rw [hresults]
    exact hother
  | landed job result hseq hsubmitted hpending hresults =>
    rw [hresults]
    rcases written_land (r := s.results) job result with h | h
    · rwa [h]
    · rw [h]
      exact mem_append_left _ hother

omit [DecidableEq Path] in
/-- What came back as written is covered, since it has the result of its own job. -/
theorem returned_of_answered (honce : s.Once) (hcovers : s.Covers) (hanswered : Answered s s')
    {entry : WriterJob Path × Except WriteError Unit} (hentry : entry ∈ s'.returned)
    (hok : entry.2 = .ok ()) : s.results.Covered entry.1 := by
  cases hanswered with
  | same hwaiting hreturned =>
    rw [hreturned] at hentry
    exact hcovers.returned entry hentry hok
  | failed job error hwaiting hreturned =>
    rw [hreturned] at hentry
    rcases mem_append.mp hentry with hentry | hentry
    · exact hcovers.returned entry hentry hok
    · cases List.mem_singleton.mp hentry
      cases hok
  | joined job ack hjob hack hchannel hwaiting hreturned =>
    rw [hreturned] at hentry
    rcases mem_append.mp hentry with hentry | hentry
    · exact hcovers.returned entry hentry hok
    · cases List.mem_singleton.mp hentry
      have hself : ack.1 = job := honce.eq_of_channel (honce.acked_submitted hack)
        (honce.waiting job hjob).1 (honce.awaited ack hack) hchannel
      rw [← hself]
      exact hcovers.acked ack hack hok

omit [DecidableEq Path] in
/-- The counter goes up. -/
theorem lt_succ_of_heeded (haction : action.isNumber = true) (hheeded : Heeded s action) : s.seq < s.seq + 1 := by
  cases action with
  | number path bytes joins =>
    have hne : s.seq + 1 ≠ 0 := hheeded
    rw [UInt64.lt_iff_toNat_lt, UInt64.toNat_add]
    rw [← UInt64.toNat_inj.ne, UInt64.toNat_add] at hne
    have hlt := s.seq.toNat_lt
    simp only [UInt64.toNat_one, UInt64.toNat_zero] at hne ⊢
    omega
  | send | stop | receive | complete | merge | sort | land | finish | join | takeErrors =>
    cases haction

theorem SidecarWriter.Covers.step {files : Path → Option ByteArray} (h : s.Covers) (honce : s.Once)
    (hsound : s.results.Sound files) (hheeded : Heeded s action) (hstep : s.step action = some s') :
    s'.Covers := by
  have hhandled := handled_of_step hstep
  have hwritten := written_of_handled hhandled
  obtain ⟨hanswered, hcompares⟩ := step_cases hstep
  have hheeds := heeds_of_step h hcompares hheeded
  have hreturned (entry : WriterJob Path × Except WriteError Unit) (hentry : entry ∈ s'.returned)
      (hok : entry.2 = .ok ()) : s'.results.Covered entry.1 :=
    (returned_of_answered honce h hanswered hentry hok).mono hwritten
  cases hhandled with
  | numbered job haction hseq hnext hack hsubmitted hpending hresults =>
    have hwrap : s.seq < s'.seq := by
      rw [hnext]
      exact lt_succ_of_heeded haction hheeded
    refine ⟨?_, ?_, ?_, ?_, hreturned, hheeds⟩
    · rw [hsubmitted, map_append, nodup_append]
      refine ⟨h.numbers, List.nodup_singleton _, ?_⟩
      intro n hn m hm heq
      obtain ⟨old, hold, rfl⟩ := List.mem_map.mp hn
      cases List.mem_singleton.mp hm
      have hlt := h.below old hold
      rw [heq, hseq] at hlt
      exact UInt64.lt_irrefl _ hlt
    · intro other hother
      rw [hsubmitted] at hother
      rcases mem_append.mp hother with hother | hother
      · exact UInt64.lt_trans (h.below other hother) hwrap
      · cases List.mem_singleton.mp hother
        rw [hseq]
        exact hwrap
    · rw [hpending, hresults, hsubmitted, cons_add, ← coe_add, add_comm (s.submitted : Multiset (WriterJob Path)), ← singleton_add]
      exact add_le_add_right h.fresh _
    · rw [hresults]
      exact h.acked
  | kept hseq hsubmitted hpending hresults =>
    refine ⟨hsubmitted ▸ h.numbers, hsubmitted ▸ hseq ▸ h.below, ?_, hresults ▸ h.acked, hreturned, hheeds⟩
    rw [hsubmitted, hresults]
    exact (add_le_add_left hpending _).trans h.fresh
  | superseded job other hseq hsubmitted hpending hjob hother hleft hmerging hpath hle hresults =>
    refine ⟨hsubmitted ▸ h.numbers, hsubmitted ▸ hseq ▸ h.below, ?_, ?_, hreturned, hheeds⟩
    · have hfresh := h.fresh
      rw [hpending, cons_add] at hfresh
      rw [hsubmitted, hresults]
      exact (le_cons_self _ job).trans hfresh
    · intro ack hack hok
      have hmem := hack
      rw [hresults, acknowledge] at hmem
      split at hmem
      · exact (h.acked ack hmem hok).mono hwritten
      next hwaits =>
        rcases mem_append.mp hmem with hmem | hmem
        · exact (h.acked ack hmem hok).mono hwritten
        · cases List.mem_singleton.mp hmem
          exact (covered_of_superseded h hsound hmerging hjob hother hpending hleft hpath hle hwaits).mono hwritten
  | landed job result hseq hsubmitted hpending hresults =>
    refine ⟨hsubmitted ▸ h.numbers, hsubmitted ▸ hseq ▸ h.below, ?_, ?_, hreturned, hheeds⟩
    · have hfresh := h.fresh
      rw [hpending, cons_add] at hfresh
      rw [hsubmitted, hresults]
      rcases written_land (r := s.results) job result with hw | hw
      · rw [hw]
        exact (le_cons_self _ job).trans hfresh
      · rw [hw, ← coe_add, coe_singleton, ← add_assoc, add_comm _ ({job} : Multiset (WriterJob Path))]
        exact hfresh
    · rw [hresults]
      exact fun ack hack hok => covered_of_land h hsound hpending result hack hok
  | taken hseq hsubmitted hpending hresults =>
    refine ⟨hsubmitted ▸ h.numbers, hsubmitted ▸ hseq ▸ h.below, ?_, ?_, hreturned, hheeds⟩
    · rw [hpending, hsubmitted, hresults]
      exact h.fresh
    · rw [hresults]
      exact h.acked

/-! ## Runs -/

/-- In every run in which the batches heed the jobs that are waited for: a file has the bytes of the latest
job that was written to it, a submission only comes back as written when its job or a later one of its path
has been written, and every failure is told once. -/
theorem writer_run {files : Path → Option ByteArray} {spawned : Bool} (hrun : Run step Heeded (.new files spawned) s) :
    (∀ path, s.results.Latest files path) ∧
    (∀ entry ∈ s.returned, entry.2 = .ok () → s.results.Covered entry.1) ∧
    s.results.Told ∧ s.results.acks.Pairwise fun ack ack' => ack.1.ack ≠ ack'.1.ack := by
  have hall : s.results.Sound files ∧ s.Once ∧ s.Covers := by
    refine hrun.invariant (I := fun s => s.results.Sound files ∧ s.Once ∧ s.Covers) ?_ ?_
    · rintro s s' action ⟨hsound, honce, hcovers⟩ hheeded hstep
      exact ⟨sound_of_step hsound hstep, honce.step hstep, hcovers.step honce hsound hheeded hstep⟩
    · exact ⟨⟨fun path => ⟨rfl, fun job h => by cases h⟩, rfl, rfl⟩, once_new files spawned, covers_new files spawned⟩
  obtain ⟨hsound, honce, hcovers⟩ := hall
  exact ⟨hsound.latest, hcovers.returned, hsound.told, honce.acks_apart⟩

/-! ## A save that is answered for nothing -/

def firstSave : WriterJob String := ⟨"p", 0, ⟨#[1]⟩, some 0⟩

def secondSave : WriterJob String := ⟨"p", 1, ⟨#[2]⟩, some 1⟩

/-- Two saves of one session arrive in one batch, and the write of the second fails. -/
def replacedSave : List (Action String) :=
  [.number "p" ⟨#[1]⟩ true, .number "p" ⟨#[2]⟩ true, .send firstSave, .send secondSave, .receive,
    .receive, .complete, .merge, .merge, .sort [secondSave], .land (.error "disk full"),
    .join firstSave]

/-- The first save comes back as written, and nothing was written at all. -/
theorem replaced_save_answered : ¬ ∀ (files : String → Option ByteArray) (spawned : Bool)
    (s : SidecarWriter String), Run step (fun _ _ => True) (.new files spawned) s →
      ∀ entry ∈ s.returned, entry.2 = .ok () → s.results.Covered entry.1 := by
  intro hall
  have hafter : (after step (SidecarWriter.new (fun _ => none) true) replacedSave).map
      (fun s => (s.returned, s.results.written)) = some ([(firstSave, .ok ())], []) := rfl
  obtain ⟨s, hs, heq⟩ := Option.map_eq_some_iff.mp hafter
  obtain ⟨hreturned, hwritten⟩ := Prod.mk.inj heq
  obtain ⟨written, hmem, _⟩ := hall _ true s (Run.refl.after hs) (firstSave, .ok ())
    (by rw [hreturned]; exact List.mem_singleton_self _) rfl
  rw [hwritten] at hmem
  cases hmem

/-- One save that is written, and comes back. -/
theorem writer_run_one_save : ∃ s : SidecarWriter String, (∀ path, s.results.Latest (fun _ => none) path) ∧
    (∀ entry ∈ s.returned, entry.2 = .ok () → s.results.Covered entry.1) ∧
    (s.results.Told ∧ s.results.acks.Pairwise fun ack ack' => ack.1.ack ≠ ack'.1.ack) ∧
    s.returned = [(firstSave, .ok ())] ∧ s.results.files "p" = some ⟨#[1]⟩ := by
  have hheeds : Heeds (.empty : KeyedMap String UInt64) ↑[firstSave] := by
    intro job hjob _ other hother _ hlt
    cases mem_singleton.mp hjob
    cases mem_singleton.mp hother
    exact absurd hlt (UInt64.lt_irrefl _)
  have hnumber : Heeded (.new (fun _ : String => none) true) (.number "p" ⟨#[1]⟩ true) :=
    show (0 : UInt64) + 1 ≠ 0 by decide
  have hstart : Run step Heeded (.new (fun _ : String => none) true)
      (.new (fun _ => none) true) := .refl
  have hnumbered := Run.step (Action.number "p" ⟨#[1]⟩ true) hstart hnumber rfl
  have hsent := Run.step (Action.send firstSave) hnumbered trivial rfl
  have hreceived := Run.step Action.receive hsent trivial rfl
  have hbatch := Run.step Action.complete hreceived hheeds rfl
  have hmerged := Run.step Action.merge hbatch trivial rfl
  have hsorted := Run.step (Action.sort [firstSave]) hmerged trivial rfl
  have hlanded := Run.step (Action.land (.ok ())) hsorted trivial rfl
  have hrun := Run.step (Action.join firstSave) hlanded trivial rfl
  have h := writer_run hrun
  exact ⟨_, h.1, h.2.1, h.2.2, rfl, rfl⟩

end Kinewright.Sidecar
