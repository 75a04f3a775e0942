import Kinewright.Studio.Recorded

/-!
# What a change adds

Every kind of change, taken by itself: what it makes of the indexes that it was checked against.
-/

namespace Kinewright.Studio

open Fallible Bundle KeyedMap SubmittedBatch
open Accounting (RecordKind ObjectRef CommandId)
open Orchestration (ProjectId BranchId HeadId ValidatedRunUpdate BranchBinding)

variable {enc : Bundle.Encoding} {stored : Set Record} {host : Host} {b : ProjectBundle}
  {feedback feedback' : FeedbackIndex} {runs runs' : RunIndex}

/-! ## Feedback -/

/-- The comments of the index have histories. -/
def FeedbackIndex.Histories (enc : Bundle.Encoding) (stored : Set Record) (feedback : FeedbackIndex) :
    Prop :=
  ∀ comment refs, feedback.revisions.get? comment = some refs → IsHistory enc stored comment refs

theorem FeedbackIndex.Histories.revisionsOf (h : feedback.Histories enc stored)
    (comment : CommentId) : IsHistory enc stored comment (feedback.revisionsOf comment) := by
  rw [FeedbackIndex.revisionsOf]
  rcases hget : feedback.revisions.get? comment with _ | refs
  · exact .nil comment
  · exact h comment refs hget

/-- What a change makes of the feedback: it is only added to, and comments still have histories. -/
structure Appends (enc : Bundle.Encoding) (stored : Set Record) (old new : FeedbackIndex) : Prop where
  adds : old.Extends new
  histories : old.Histories enc stored → new.Histories enc stored

theorem Appends.refl (feedback : FeedbackIndex) : Appends enc stored feedback feedback := ⟨.refl feedback, id⟩

/-- Only the batches are changed. -/
theorem Appends.of_batches {batches : KeyedMap FeedbackBatchId SubmittedBatch}
    (h : feedback.batches.Grows (fun _ => Stays) batches) :
    Appends enc stored feedback { feedback with batches := batches } :=
  ⟨⟨(FeedbackIndex.Extends.refl feedback).revisions, h, (FeedbackIndex.Extends.refl feedback).notes⟩, id⟩

section

variable {result : MetadataResult}

theorem appends_of_saveFeedback (hhost : host.Within stored) {revision : FeedbackRevision}
    (h : saveFeedback enc host b feedback revision = .ok (feedback', result)) :
    Appends enc stored feedback feedback' := by
  simp only [saveFeedback, bind_eq_ok, refuse_eq_ok, not_or, not_not] at h
  obtain ⟨⟨⟩, _, _, _, ⟨⟩, _, ⟨⟩, ⟨hnumber, hpredecessor⟩, _, _, ⟨⟩, _, _, _, ⟨⟩, _, ⟨⟩, _, _, _, ⟨⟩, _,
    sealed, hsealed, hend⟩ := h
  cases hend
  obtain ⟨hstored, rfl, _⟩ := of_admitRecord hhost hsealed
  constructor
  · refine ⟨.insert (fun _ refs => List.prefix_refl refs) ?_,
      (FeedbackIndex.Extends.refl feedback).batches, (FeedbackIndex.Extends.refl feedback).notes⟩
    intro refs hrefs
    rw [FeedbackIndex.revisionsOf, hrefs]
    exact List.prefix_append refs _
  · intro hhistories comment refs hrefs
    rw [get?_insert] at hrefs
    split at hrefs
    next hcomment =>
      cases hrefs
      subst hcomment
      exact (hhistories.revisionsOf revision.commentId).concat hstored rfl hnumber hpredecessor
    next => exact hhistories comment refs hrefs

theorem appends_of_saveVoice {voice : VoiceRef} (h : saveVoice b feedback voice = .ok (feedback', result)) :
    Appends enc stored feedback feedback' := by
  simp only [saveVoice, bind_eq_ok, refuse_eq_ok, not_exists, not_and, not_not] at h
  obtain ⟨⟨⟩, _, ⟨⟩, hkeeps, hend⟩ := h
  cases hend
  refine ⟨⟨(FeedbackIndex.Extends.refl feedback).revisions, (FeedbackIndex.Extends.refl feedback).batches, ?_⟩, id⟩
  apply Grows.insert
  · exact fun _ => VoiceRef.keeps_refl
  · exact fun previous hprevious => hkeeps previous hprevious

theorem appends_of_submitBatch {id : CommandId} {batch : FeedbackBatch} {request : ReviseRequest}
    (h : submitBatch enc host b id feedback batch request = .ok (feedback', result)) :
    Appends enc stored feedback feedback' := by
  simp only [submitBatch, bind_eq_ok, refuse_eq_ok, not_or, Bool.not_eq_true] at h
  obtain ⟨⟨⟩, _, ⟨⟩, ⟨_, _, hnew⟩, ⟨⟩, _, sealed, _, hend⟩ := h
  cases hend
  apply Appends.of_batches
  apply Grows.insert
  · exact fun _ => Stays.refl
  · intro submitted hsubmitted
    rw [KeyedMap.contains, hsubmitted] at hnew
    cases hnew

end

/-- A batch that is consumed keeps the run that consumed it before. -/
theorem appends_of_consume {batch : FeedbackBatchId} {submitted : SubmittedBatch} {run : RunId}
    (hsubmitted : feedback.batches.get? batch = some submitted)
    (hfree : ∀ old ∈ submitted.consumedBy, old = run) :
    Appends enc stored feedback (feedback.consume batch submitted run) := by
  apply Appends.of_batches
  apply Grows.insert
  · exact fun _ => Stays.refl
  · intro old hold
    cases hsubmitted.symm.trans hold
    refine ⟨rfl, rfl, fun first hfirst => ?_⟩
    rw [hfree first hfirst]

theorem appends_of_consumeBatch {records : List RunRecord} {consumed : Option (FeedbackBatchId × RunId)}
    (h : consumeBatch feedback records consumed = .ok feedback') :
    Appends enc stored feedback feedback' := by
  rcases consumed with _ | ⟨batch, run⟩
  · cases h
    exact .refl feedback
  · simp only [consumeBatch, bind_eq_ok, refuse_eq_ok, okOr_eq_ok, not_or, not_exists, not_and, not_not] at h
    obtain ⟨submitted, hsubmitted, ⟨⟩, ⟨_, hfree⟩, hend⟩ := h
    cases hend
    exact appends_of_consume hsubmitted hfree

theorem appends_of_consumeSubmitted {transition : ValidatedRunUpdate} {batch : Option FeedbackBatchId}
    (h : consumeSubmitted enc host b transition feedback batch = .ok feedback') :
    Appends enc stored feedback feedback' := by
  cases batch with
  | none =>
    cases h
    exact .refl feedback
  | some batch =>
    simp only [consumeSubmitted, bind_eq_ok, refuse_eq_ok, okOr_eq_ok, not_exists, not_and, not_not] at h
    obtain ⟨⟨⟩, _, submitted, hsubmitted, _, _, _, _, ⟨⟩, _, ⟨⟩, hfree, hend⟩ := h
    cases hend
    exact appends_of_consume hsubmitted hfree

/-! ## Runs -/

/-- The runs of the index have logs. -/
def RunIndex.Logs (enc : Bundle.Encoding) (stored : Set Record) (runs : RunIndex) : Prop :=
  ∀ run cuts, runs.orchestration.get? run = some cuts → IsLog enc stored run cuts

/-- A run that is put into the index has advanced, and the logs are as they were. -/
theorem of_putRun {run : RunRecord} (h : putRun enc host runs run = .ok runs') :
    runs.Extends runs' ∧ runs'.orchestration = runs.orchestration := by
  simp only [putRun, bind_eq_ok] at h
  obtain ⟨⟨⟩, hall, ⟨⟩, _, hend⟩ := h
  cases hend
  rw [all_eq_ok] at hall
  refine ⟨⟨?_, (RunIndex.Extends.refl runs).cuts⟩, rfl⟩
  apply Grows.insert
  · exact fun _ _ => .inl rfl
  · intro previous hprevious
    have hcheck := hall previous (by simp [hprevious])
    simp only [bind_eq_ok, refuse_eq_ok, UInt64.not_le] at hcheck
    exact .inr hcheck.choose_spec.1

theorem of_putRuns {records : List RunRecord} (h : putRuns enc host runs records = .ok runs') :
    runs.Extends runs' ∧ runs'.orchestration = runs.orchestration := by
  induction records generalizing runs with
  | nil =>
    cases h
    exact ⟨.refl _, rfl⟩
  | cons run records ih =>
    rw [putRuns, bind_eq_ok] at h
    obtain ⟨next, hput, h⟩ := h
    obtain ⟨hfirst, horchestration⟩ := of_putRun hput
    obtain ⟨hrest, hrestOrchestration⟩ := ih h
    exact ⟨hfirst.trans hrest, hrestOrchestration.trans horchestration⟩

/-- The cuts of a run so far. -/
def RunIndex.cutsOf (runs : RunIndex) (run : Orchestration.RunId) : List PublishedRunCut :=
  (runs.orchestration.get? run).getD []

/-- The index with one more cut of a run. -/
def RunIndex.push (runs : RunIndex) (run : Orchestration.RunId) (cut : PublishedRunCut) : RunIndex :=
  { runs with orchestration := runs.orchestration.insert run (runs.cutsOf run ++ [cut]) }

theorem RunIndex.get?_push (run : Orchestration.RunId) (cut : PublishedRunCut) :
    (runs.push run cut).orchestration.get? run = some (runs.cutsOf run ++ [cut]) := by
  simp [push]

theorem RunIndex.extends_push (run : Orchestration.RunId) (cut : PublishedRunCut) :
    runs.Extends (runs.push run cut) := by
  refine ⟨(RunIndex.Extends.refl runs).runs, ?_⟩
  apply Grows.insert
  · exact fun _ cuts => List.prefix_refl cuts
  · intro cuts hcuts
    rw [RunIndex.cutsOf, hcuts]
    exact List.prefix_append cuts _

theorem RunIndex.Logs.cutsOf (h : runs.Logs enc stored) (run : Orchestration.RunId) :
    IsLog enc stored run (runs.cutsOf run) := by
  rw [RunIndex.cutsOf]
  rcases hget : runs.orchestration.get? run with _ | cuts
  · exact .nil run
  · exact h run cuts hget

/-- The logs go on with the next sequence, and with the segment of the last cut. -/
theorem RunIndex.Logs.push (h : runs.Logs enc stored) {run : Orchestration.RunId} {entry : SealedCut}
    (hsealed : entry.Sealed enc stored run)
    (hsequence : entry.cut.receipt.sequence = nextSequence (runs.cutsOf run))
    (hprevious : entry.segment.previous = (runs.cutsOf run).getLast?.map PublishedRunCut.segment)
    (hlt : (runs.cutsOf run ++ [entry.cut]).length < 2 ^ 64) :
    (runs.push run entry.cut).Logs enc stored := by
  intro run' cuts hcuts
  rw [RunIndex.push, get?_insert] at hcuts
  split at hcuts
  next hrun =>
    cases hcuts
    subst hrun
    rw [List.length_append] at hlt
    exact (h.cutsOf run').concat hsealed (hsequence.trans ((h.cutsOf run').nextSequence hlt)) hprevious
  next => exact h run' cuts hcuts

/-- The cut that an update adds to its run. -/
theorem of_stageOrchestrationUpdate (hstored : stored.InjOn enc.reference) (hhost : host.Within stored)
    {m : Recorded} (hm : m.At enc stored b.held.root) {envelope : MetadataEnvelope}
    {transition : ValidatedRunUpdate} {batch : Option FeedbackBatchId}
    (h : stageOrchestrationUpdate enc host b envelope transition batch feedback = .ok (feedback', runs')) :
    Appends enc stored feedback feedback' ∧ ∃ entry : SealedCut, entry.Sealed enc stored transition.projection.run ∧
      entry.cut.receipt.sequence = nextSequence (m.runs.cutsOf transition.projection.run) ∧
      entry.segment.previous = (m.runs.cutsOf transition.projection.run).getLast?.map PublishedRunCut.segment ∧
      runs' = m.runs.push transition.projection.run entry.cut := by
  simp only [stageOrchestrationUpdate, bind_eq_ok, refuse_eq_ok, not_or, not_not] at h
  obtain ⟨⟨⟩, _, ⟨⟩, _, index, hindex, ⟨⟩, ⟨hsequence, hprevious⟩, appended, hconsume, snapshot,
    hsnapshot, segment, hsegment, hend⟩ := h
  cases hend
  cases readRunIndex_eq hstored hhost hm hindex
  obtain ⟨hsnapshotStored, rfl, _⟩ := of_admitRecord hhost hsnapshot
  obtain ⟨hsegmentStored, rfl, _⟩ := of_admitRecord hhost hsegment
  refine ⟨appends_of_consumeSubmitted hconsume, ⟨⟨envelope, receiptOf transition, _, _, batch⟩,
    transition.projection, transition.segment⟩, ?_, hsequence, hprevious, rfl⟩
  exact {
    snapshotStored := hsnapshotStored
    snapshot := rfl
    segmentStored := hsegmentStored
    segment := rfl
    run := rfl
    sequence := rfl }

/-- An index of runs that passes its check has no more cuts of a run than there may be receipts. -/
theorem length_of_validate {limits : StorageLimits} {enc : RecordEncoding}
    (h : (Record.runIndex runs).validate enc limits = .ok ()) {run : Orchestration.RunId}
    {cuts : List PublishedRunCut} (hcuts : runs.orchestration.get? run = some cuts) :
    cuts.length < 2 ^ 64 := by
  simp only [Record.validate, RunIndex.validate, bind_eq_ok] at h
  obtain ⟨⟨⟩, _, ⟨⟩, _, ⟨⟩, hall, _⟩ := h
  rw [all_eq_ok] at hall
  have hcheck := hall (run, cuts) (mem_entries.mpr hcuts)
  simp only [checkCuts, refuse_eq_ok, not_or, not_lt] at hcheck
  have hlimit := limits.receipts.toNat_lt
  omega

/-! ## All changes -/

section Recording

variable (hstored : stored.InjOn enc.reference) (hhost : host.Within stored) {m : Recorded}
  {root : StudioRoot} {update : ValidatedMetadataUpdate} {result : MetadataResult}

/-- What a checked change makes of what is recorded. -/
def Records (enc : Bundle.Encoding) (stored : Set Record) (m : Recorded) (root : StudioRoot)
    (update : ValidatedMetadataUpdate) : Prop :=
  ∃ m' : Recorded, m'.At enc stored (some (update.apply root)) ∧ m.Extends m' ∧
    (m.Chained enc stored → m'.Chained enc stored)

include hhost in
theorem records_of_sealFeedback (hm : m.At enc stored (some root))
    {change : FeedbackIndex × MetadataResult} (happends : Appends enc stored m.feedback change.1)
    (h : sealFeedback enc host b change = .ok (update, result)) : Records enc stored m root update := by
  simp only [sealFeedback, bind_eq_ok] at h
  obtain ⟨reference, hsealed, hend⟩ := h
  cases hend
  obtain ⟨hmem, hreference, _⟩ := of_admitRecord hhost hsealed
  refine ⟨{ m with feedback := change.1 }, ⟨hm.versions, ⟨hmem, hreference⟩, hm.runs⟩, ?_, ?_⟩
  · exact ⟨(Recorded.Extends.refl m).snapshots, happends.adds, .refl m.runs⟩
  · intro hchained
    exact ⟨happends.histories hchained.histories, hchained.logs⟩

variable {change : FeedbackIndex × RunIndex}

include hhost in
/-- The indexes of a change of runs are sealed one after the other. The logs may depend on the index of the
runs having passed its check. -/
theorem records_of_sealRuns (hm : m.At enc stored (some root)) {runs : List RunId}
    (happends : Appends enc stored m.feedback change.1) (hextends : m.runs.Extends change.2)
    (hlogs : (Record.runIndex change.2).validate enc.toRecordEncoding b.limits = .ok () →
      m.runs.Logs enc stored → change.2.Logs enc stored)
    (h : sealRuns enc host b runs change = .ok (update, result)) :
    Records enc stored m root update := by
  simp only [sealRuns, bind_eq_ok] at h
  obtain ⟨index, hindex, reference, hsealed, hend⟩ := h
  cases hend
  obtain ⟨hindexMem, hindexReference, hvalid⟩ := of_admitRecord hhost hindex
  obtain ⟨hmem, hreference, _⟩ := of_admitRecord hhost hsealed
  refine ⟨⟨m.versions, change.1, change.2⟩, ⟨hm.versions, ⟨hmem, hreference⟩, ⟨hindexMem, hindexReference⟩⟩, ?_, ?_⟩
  · exact ⟨(Recorded.Extends.refl m).snapshots, happends.adds, hextends⟩
  · intro hchained
    exact ⟨happends.histories hchained.histories, hlogs hvalid hchained.logs⟩

include hstored hhost

section

variable (hroot : b.held.root = some root) (hm : m.At enc stored (some root))

include hroot hm

theorem records_of_publishSnapshot
    {publish : PublishSnapshot} {change : VersionIndex × MetadataResult} {reference : ObjectRef}
    (h : publishSnapshot enc host b publish = .ok change)
    (hsealed : admitRecord enc host b.limits (.versionIndex change.1) = .ok reference) :
    Records enc stored m root ⟨some reference, none, none⟩ := by
  simp only [publishSnapshot, bind_eq_ok, refuse_eq_ok, not_or, Bool.not_eq_true] at h
  obtain ⟨versions, hversions, ⟨⟩, ⟨hnew, _⟩, _, _, ⟨⟩, _, _, _, ⟨⟩, _, ⟨⟩, _, ⟨⟩, _, hend⟩ := h
  cases hend
  rw [versionIndex, hroot] at hversions
  cases readVersionIndex_eq hstored hhost hm hversions
  obtain ⟨hmem, hreference, _⟩ := of_admitRecord hhost hsealed
  refine ⟨{ m with versions := _ }, ⟨⟨hmem, hreference⟩, hm.feedback, hm.runs⟩, ?_,
    fun hchained => ⟨hchained.histories, hchained.logs⟩⟩
  refine ⟨?_, .refl m.feedback, .refl m.runs⟩
  apply Grows.insert
  · exact fun _ _ => rfl
  · intro descriptor hdescriptor
    rw [KeyedMap.contains, hdescriptor] at hnew
    cases hnew

theorem records_of_changeRuns {records : List RunRecord} {batch : Option (FeedbackBatchId × RunId)} {runs : List RunId}
    (h : changeRuns enc host b m.feedback records batch = .ok change)
    (hsealed : sealRuns enc host b runs change = .ok (update, result)) :
    Records enc stored m root update := by
  simp only [changeRuns, bind_eq_ok, refuse_eq_ok] at h
  obtain ⟨original, horiginal, ⟨⟩, _, index, hput, feedback, hconsume, hend⟩ := h
  cases hend
  rw [runIndex, hroot] at horiginal
  cases readRunIndex_eq hstored hhost hm horiginal
  obtain ⟨hextends, horchestration⟩ := of_putRuns hput
  refine records_of_sealRuns hhost hm (appends_of_consumeBatch hconsume) hextends ?_ hsealed
  intro _ hlogs run cuts hcuts
  rw [horchestration] at hcuts
  exact hlogs run cuts hcuts

theorem records_of_stageOrchestrationUpdate {envelope : MetadataEnvelope} {transition : ValidatedRunUpdate}
    {batch : Option FeedbackBatchId} {runs : List RunId}
    (h : stageOrchestrationUpdate enc host b envelope transition batch m.feedback = .ok change)
    (hsealed : sealRuns enc host b runs change = .ok (update, result)) :
    Records enc stored m root update := by
  obtain ⟨feedback, index⟩ := change
  obtain ⟨happends, entry, hentry, hsequence, hprevious, rfl⟩ :=
    of_stageOrchestrationUpdate hstored hhost (hroot ▸ hm) h
  refine records_of_sealRuns hhost hm happends (RunIndex.extends_push _ _) ?_ hsealed
  intro hvalid hlogs
  exact hlogs.push hentry hsequence hprevious (length_of_validate hvalid (RunIndex.get?_push _ _))

/-- A checked change only adds to what is recorded. -/
theorem records_of_validateMetadata {envelope : MetadataEnvelope} {metadata : MetadataUpdate}
    (h : validateMetadata enc host b envelope metadata = .ok (update, result)) :
    Records enc stored m root update := by
  rw [validateMetadata, bind_eq_ok] at h
  obtain ⟨feedback, hfeedback, h⟩ := h
  rw [feedbackIndex, hroot] at hfeedback
  cases readFeedbackIndex_eq hstored hhost hm hfeedback
  cases hchange : metadata.change with
  | orchestrationUpdate transition batch =>
    simp only [hchange, bind_eq_ok] at h
    obtain ⟨change, hstage, hsealed⟩ := h
    exact records_of_stageOrchestrationUpdate hstored hhost hroot hm hstage hsealed
  | publishSnapshot publish =>
    simp only [hchange, bind_eq_ok] at h
    obtain ⟨change, hpublish, reference, hsealed, hend⟩ := h
    cases hend
    exact records_of_publishSnapshot hstored hhost hroot hm hpublish hsealed
  | saveFeedback revision =>
    simp only [hchange, bind_eq_ok] at h
    obtain ⟨⟨feedback', result'⟩, hsave, hsealed⟩ := h
    exact records_of_sealFeedback hhost hm (appends_of_saveFeedback hhost hsave) hsealed
  | saveVoice voice =>
    simp only [hchange, bind_eq_ok] at h
    obtain ⟨⟨feedback', result'⟩, hsave, hsealed⟩ := h
    exact records_of_sealFeedback hhost hm (appends_of_saveVoice hsave) hsealed
  | submitBatch batch request =>
    simp only [hchange, bind_eq_ok] at h
    obtain ⟨⟨feedback', result'⟩, hsubmit, hsealed⟩ := h
    exact records_of_sealFeedback hhost hm (appends_of_submitBatch hsubmit) hsealed
  | orchestration records batch =>
    simp only [hchange, bind_eq_ok] at h
    obtain ⟨change, hruns, hsealed⟩ := h
    exact records_of_changeRuns hstored hhost hroot hm hruns hsealed

end

end Recording

end Kinewright.Studio
