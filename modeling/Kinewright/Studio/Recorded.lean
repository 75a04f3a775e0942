import Kinewright.Lib.Chain
import Kinewright.Studio.Metadata

/-!
# What a Studio has recorded

The three indexes that a root names, what holds of them at every time, and the ways in which a change may
move them: comments, runs and snapshots are only ever added to, and what is said once is kept.

The store finds a record by its digest, so what is read is what was sealed as long as no two of the records
that it holds have the same digest. That is assumed of the records of one store, and of no others.
-/

namespace Kinewright.Studio

open Fallible Bundle List SubmittedBatch
open Accounting (RecordKind ObjectRef CommandId)
open Orchestration (ProjectId BranchId HeadId ValidatedRunUpdate EventSegment RunProjection)

/-- The three indexes that a root names. -/
structure Recorded where
  versions : VersionIndex
  feedback : FeedbackIndex
  runs : RunIndex

/-- Nothing is recorded yet. -/
def Recorded.empty : Recorded := ⟨.empty, .empty, .empty⟩

variable {enc : Bundle.Encoding} {stored : Set Record} {host : Host}

/-- Everything that is read from the store is stored in it, and so is everything that it admits. -/
structure Host.Within (host : Host) (stored : Set Record) : Prop where
  read : ∀ reference record, host.read reference = .ok record → record ∈ stored
  admission : ∀ record, host.admission record = .ok () → record ∈ stored

/-! ## Naming an index -/

/-- The reference is that of the stored record, or there is none and the record is the first one. -/
def Names (enc : Bundle.Encoding) (stored : Set Record) (reference : Option ObjectRef) (record first : Record) : Prop :=
  match reference with
  | none => record = first
  | some reference => record ∈ stored ∧ enc.reference record = reference

/-- The root names the indexes. -/
structure Recorded.At (enc : Bundle.Encoding) (stored : Set Record) (m : Recorded)
    (root : Option StudioRoot) : Prop where
  versions : Names enc stored (root.bind StudioRoot.versionIndexRef) (.versionIndex m.versions) (.versionIndex .empty)
  feedback : Names enc stored (root.bind StudioRoot.feedbackIndexRef) (.feedbackIndex m.feedback)
    (.feedbackIndex .empty)
  runs : Names enc stored (root.bind StudioRoot.runIndexRef) (.runIndex m.runs) (.runIndex .empty)

section Reading

variable (hstored : stored.InjOn enc.reference) (hhost : host.Within stored) {kind : RecordKind}
  {reference : ObjectRef} {record sealed : Record}

include hhost in
theorem of_readRecord (h : readRecord enc host kind reference = .ok record) :
    record ∈ stored ∧ enc.reference record = reference := by
  simp only [readRecord, bind_eq_ok, refuse_eq_ok, not_not] at h
  obtain ⟨⟨⟩, _, found, hread, ⟨⟩, hreference, hend⟩ := h
  cases hend
  exact ⟨hhost.read reference record hread, hreference⟩

include hstored hhost in
/-- What is read under the reference of a stored record is that record. -/
theorem readRecord_eq (hsealed : sealed ∈ stored ∧ enc.reference sealed = reference)
    (h : readRecord enc host kind reference = .ok record) : record = sealed := by
  obtain ⟨hmem, hreference⟩ := of_readRecord hhost h
  exact hstored hmem hsealed.1 (hreference.trans hsealed.2.symm)

include hhost in
theorem of_admitRecord {limits : StorageLimits} (h : admitRecord enc host limits record = .ok reference) :
    record ∈ stored ∧ enc.reference record = reference ∧ record.validate enc.toRecordEncoding limits = .ok () := by
  simp only [admitRecord, bind_eq_ok] at h
  obtain ⟨⟨⟩, hvalid, ⟨⟩, hadmission, hend⟩ := h
  cases hend
  exact ⟨hhost.admission record hadmission, rfl, hvalid⟩

variable {m : Recorded} {root : Option StudioRoot} (hm : m.At enc stored root)

include hstored hhost hm

theorem readVersionIndex_eq {index : VersionIndex}
    (h : readVersionIndex enc host (root.bind StudioRoot.versionIndexRef) = .ok index) :
    index = m.versions := by
  have hnames := hm.versions
  unfold readVersionIndex at h
  generalize root.bind StudioRoot.versionIndexRef = reference at h hnames
  cases reference with
  | none =>
    cases h
    exact (Record.versionIndex.inj hnames).symm
  | some reference =>
    obtain ⟨record, hread, h⟩ := bind_eq_ok.mp h
    rw [readRecord_eq hstored hhost hnames hread] at h
    exact (Except.ok.inj h).symm

theorem readFeedbackIndex_eq {index : FeedbackIndex}
    (h : readFeedbackIndex enc host (root.bind StudioRoot.feedbackIndexRef) = .ok index) :
    index = m.feedback := by
  have hnames := hm.feedback
  unfold readFeedbackIndex at h
  generalize root.bind StudioRoot.feedbackIndexRef = reference at h hnames
  cases reference with
  | none =>
    cases h
    exact (Record.feedbackIndex.inj hnames).symm
  | some reference =>
    obtain ⟨record, hread, h⟩ := bind_eq_ok.mp h
    rw [readRecord_eq hstored hhost hnames hread] at h
    exact (Except.ok.inj h).symm

theorem readRunIndex_eq {index : RunIndex}
    (h : readRunIndex enc host (root.bind StudioRoot.runIndexRef) = .ok index) : index = m.runs := by
  have hnames := hm.runs
  unfold readRunIndex at h
  generalize root.bind StudioRoot.runIndexRef = reference at h hnames
  cases reference with
  | none =>
    cases h
    exact (Record.runIndex.inj hnames).symm
  | some reference =>
    obtain ⟨record, hread, h⟩ := bind_eq_ok.mp h
    rw [readRecord_eq hstored hhost hnames hread] at h
    exact (Except.ok.inj h).symm

end Reading

/-! ## Histories -/

/-- The references are those of the revisions of a comment: they are numbered from one, and each names the
one before it. -/
def IsHistory (enc : Bundle.Encoding) (stored : Set Record) (comment : CommentId) (refs : List ObjectRef) : Prop :=
  ∃ revisions : List FeedbackRevision,
    revisions.map (fun revision => enc.reference (.feedbackRevision revision)) = refs ∧
    (∀ revision ∈ revisions, .feedbackRevision revision ∈ stored ∧ revision.commentId = comment) ∧
    Chain.Chained (fun revision => revision.revision.toNat) FeedbackRevision.predecessor
      (fun revision => enc.reference (.feedbackRevision revision)) revisions

theorem IsHistory.nil (comment : CommentId) : IsHistory enc stored comment [] :=
  ⟨[], rfl, fun _ h => (not_mem_nil h).elim, .nil⟩

/-- A history grows by a revision that says its length and names its last revision. -/
theorem IsHistory.concat {comment : CommentId} {refs : List ObjectRef} {revision : FeedbackRevision}
    (h : IsHistory enc stored comment refs) (hstored : .feedbackRevision revision ∈ stored)
    (hcomment : revision.commentId = comment) (hnumber : revision.revision.toNat = refs.length + 1)
    (hpredecessor : revision.predecessor = refs.getLast?) :
    IsHistory enc stored comment (refs ++ [enc.reference (.feedbackRevision revision)]) := by
  obtain ⟨revisions, rfl, hof, hchained⟩ := h
  refine ⟨revisions ++ [revision], by simp, ?_, ?_⟩
  · intro r hr
    rcases mem_append.mp hr with hr | hr
    · exact hof r hr
    · cases mem_singleton.mp hr
      exact ⟨hstored, hcomment⟩
  · rw [length_map] at hnumber
    rw [getLast?_map] at hpredecessor
    exact hchained.concat hnumber hpredecessor

/-- A cut of a run, with what was sealed for it. -/
structure SealedCut where
  cut : PublishedRunCut
  projection : RunProjection
  segment : EventSegment

/-- The snapshot and the segment of the cut are what was sealed, and are about the run at its sequence. -/
structure SealedCut.Sealed (enc : Bundle.Encoding) (stored : Set Record) (run : Orchestration.RunId)
    (entry : SealedCut) : Prop where
  snapshotStored : .snapshot entry.projection ∈ stored
  snapshot : entry.cut.snapshot = enc.reference (.snapshot entry.projection)
  segmentStored : .eventSegment entry.segment ∈ stored
  segment : entry.cut.segment = enc.reference (.eventSegment entry.segment)
  run : entry.projection.run = run
  sequence : entry.projection.sequence = entry.cut.receipt.sequence

/-- The cuts are those of a run: their sequences are counted from one, and the segment of each names the
segment of the one before it. -/
def IsLog (enc : Bundle.Encoding) (stored : Set Record) (run : Orchestration.RunId)
    (cuts : List PublishedRunCut) : Prop :=
  ∃ entries : List SealedCut, entries.map SealedCut.cut = cuts ∧ (∀ entry ∈ entries, entry.Sealed enc stored run) ∧
    Chain.Chained (fun entry => entry.cut.receipt.sequence) (fun entry => entry.segment.previous)
      (fun entry => entry.cut.segment) entries

theorem IsLog.nil (run : Orchestration.RunId) : IsLog enc stored run [] :=
  ⟨[], rfl, fun _ h => (not_mem_nil h).elim, .nil⟩

theorem IsLog.concat {run : Orchestration.RunId} {cuts : List PublishedRunCut} {entry : SealedCut}
    (h : IsLog enc stored run cuts) (hsealed : entry.Sealed enc stored run)
    (hnumber : entry.cut.receipt.sequence = cuts.length + 1)
    (hprevious : entry.segment.previous = cuts.getLast?.map PublishedRunCut.segment) :
    IsLog enc stored run (cuts ++ [entry.cut]) := by
  obtain ⟨entries, rfl, hof, hchained⟩ := h
  refine ⟨entries ++ [entry], by simp, ?_, ?_⟩
  · intro e he
    rcases mem_append.mp he with he | he
    · exact hof e he
    · cases mem_singleton.mp he
      exact hsealed
  · rw [length_map] at hnumber
    rw [getLast?_map, Option.map_map] at hprevious
    exact hchained.concat hnumber hprevious

/-- The sequence after the last cut of a log is its length and one, while that is a number of 64 bits. -/
theorem IsLog.nextSequence {run : Orchestration.RunId} {cuts : List PublishedRunCut}
    (h : IsLog enc stored run cuts) (hlt : cuts.length + 1 < 2 ^ 64) :
    nextSequence cuts = cuts.length + 1 := by
  obtain ⟨entries, rfl, _, hchained⟩ := h
  rw [length_map] at hlt ⊢
  unfold Studio.nextSequence
  rw [getLast?_map]
  rcases hlast : entries.getLast? with _ | entry
  · rw [getLast?_eq_none_iff.mp hlast]
    rfl
  · have hnumber := hchained.number_last hlast
    simp only [Option.map_some] at hnumber ⊢
    omega

/-! ## What holds at every time -/

/-- Every comment has a history, and every run a log. -/
structure Recorded.Chained (enc : Bundle.Encoding) (stored : Set Record) (m : Recorded) : Prop where
  histories : ∀ comment refs, m.feedback.revisions.get? comment = some refs → IsHistory enc stored comment refs
  logs : ∀ run cuts, m.runs.orchestration.get? run = some cuts → IsLog enc stored run cuts

theorem Recorded.empty_at : Recorded.empty.At enc stored none := ⟨rfl, rfl, rfl⟩

theorem Recorded.empty_chained : Recorded.empty.Chained enc stored where
  histories _ _ h := by cases h
  logs _ _ h := by cases h

/-! ## How an index may change -/

/-- What stays of a batch: its revisions, its request, and the run that consumed it. -/
structure SubmittedBatch.Stays (old new : SubmittedBatch) : Prop where
  batchRef : new.batchRef = old.batchRef
  request : new.request = old.request
  consumedBy : ∀ run, old.consumedBy = some run → new.consumedBy = some run

theorem SubmittedBatch.Stays.refl (batch : SubmittedBatch) : batch.Stays batch := ⟨rfl, rfl, fun _ h => h⟩

theorem SubmittedBatch.Stays.trans {a b c : SubmittedBatch} (h : a.Stays b) (h' : b.Stays c) : a.Stays c :=
  ⟨h'.batchRef.trans h.batchRef, h'.request.trans h.request, fun run hrun => h'.consumedBy run (h.consumedBy run hrun)⟩

theorem VoiceRef.keeps_refl (voice : VoiceRef) : voice.keeps voice := ⟨rfl, rfl, rfl, fun _ h => h⟩

theorem VoiceRef.keeps_trans {a b c : VoiceRef} (h : b.keeps a) (h' : c.keeps b) : c.keeps a := by
  obtain ⟨haudio, hduration, hlog, hasr⟩ := h
  obtain ⟨haudio', hduration', hlog', hasr'⟩ := h'
  exact ⟨haudio'.trans haudio, hduration'.trans hduration, hlog'.trans hlog,
    fun reference hreference => hasr' reference (hasr reference hreference)⟩

/-- The run of the first scheduler is as it was, or further on. -/
def RunRecord.Advances (old new : RunRecord) : Prop := new = old ∨ old.projection.sequence < new.projection.sequence

theorem RunRecord.Advances.trans {a b c : RunRecord} (h : a.Advances b) (h' : b.Advances c) : a.Advances c := by
  rcases h with rfl | h
  · exact h'
  · rcases h' with rfl | h'
    · exact .inr h
    · exact .inr (UInt64.lt_trans h h')

/-- Revisions are added at the end, batches stay, and notes keep what they said first. -/
structure FeedbackIndex.Extends (old new : FeedbackIndex) : Prop where
  revisions : old.revisions.Grows (fun _ refs refs' => refs <+: refs') new.revisions
  batches : old.batches.Grows (fun _ => Stays) new.batches
  notes : old.notes.Grows (fun _ voice voice' => voice'.keeps voice) new.notes

theorem FeedbackIndex.Extends.refl (feedback : FeedbackIndex) : feedback.Extends feedback :=
  ⟨.refl (fun _ refs => prefix_refl refs) _, .refl (fun _ => Stays.refl) _,
    .refl (R := fun _ voice voice' => VoiceRef.keeps voice' voice) (fun _ => VoiceRef.keeps_refl) _⟩

theorem FeedbackIndex.Extends.trans {a b c : FeedbackIndex} (h : a.Extends b) (h' : b.Extends c) : a.Extends c :=
  ⟨h.revisions.trans (fun _ _ _ _ => IsPrefix.trans) h'.revisions,
    h.batches.trans (fun _ _ _ _ => Stays.trans) h'.batches,
    h.notes.trans (fun _ _ _ _ => VoiceRef.keeps_trans) h'.notes⟩

/-- Runs advance, and cuts are added at the end. -/
structure RunIndex.Extends (old new : RunIndex) : Prop where
  runs : old.runs.Grows (fun _ => RunRecord.Advances) new.runs
  cuts : old.orchestration.Grows (fun _ cuts cuts' => cuts <+: cuts') new.orchestration

theorem RunIndex.Extends.refl (index : RunIndex) : index.Extends index :=
  ⟨.refl (fun _ _ => .inl rfl) _, .refl (fun _ cuts => prefix_refl cuts) _⟩

theorem RunIndex.Extends.trans {a b c : RunIndex} (h : a.Extends b) (h' : b.Extends c) : a.Extends c :=
  ⟨h.runs.trans (fun _ _ _ _ => RunRecord.Advances.trans) h'.runs, h.cuts.trans (fun _ _ _ _ => IsPrefix.trans) h'.cuts⟩

/-- Nothing that was recorded is dropped, or changed otherwise than it may be. -/
structure Recorded.Extends (old new : Recorded) : Prop where
  snapshots : old.versions.snapshots.Grows (fun _ => Eq) new.versions.snapshots
  feedback : old.feedback.Extends new.feedback
  runs : old.runs.Extends new.runs

theorem Recorded.Extends.refl (m : Recorded) : m.Extends m := ⟨.refl (fun _ _ => rfl) _, .refl _, .refl _⟩

theorem Recorded.Extends.trans {a b c : Recorded} (h : a.Extends b) (h' : b.Extends c) : a.Extends c :=
  ⟨h.snapshots.trans (fun _ _ _ _ => Eq.trans) h'.snapshots, h.feedback.trans h'.feedback, h.runs.trans h'.runs⟩

end Kinewright.Studio
