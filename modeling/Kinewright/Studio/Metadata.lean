import Kinewright.Bundle.State

/-!
# Changes of metadata

`studio_store.rs`, `orchestration_store.rs`: a change is checked against the indexes that the root of the
bundle names, applied to a copy of them, and the copies are sealed. Nothing of the bundle itself changes
until they are published.
-/

namespace Kinewright.Studio

open Fallible Bundle
open Accounting (RecordKind ObjectRef CommandId)
open Orchestration (ProjectId BranchId HeadId ValidatedRunUpdate BranchBinding)

/-! ## The store -/

/-- One element of drawn strokes: a point, or a stroke of so many points. -/
inductive StrokeElement
  | point
  | stroke (points : ℕ)

/-- What the store answers while a change is checked. Reading, holding what was read, and sealing may all
fail. -/
structure Host where
  read : ObjectRef → Except BundleError Record
  readEvidence : ObjectRef → Except BundleError ByteArray
  pin : List ObjectRef → Except BundleError Unit
  admission : Record → Except BundleError Unit
  checkpointReference : BranchId → Except BundleError ObjectRef
  /-- The elements that the parser finds, one after another, and the error that it stops with. -/
  parseStrokes : ByteArray → List (Except String StrokeElement)

variable (enc : Bundle.Encoding) (host : Host)

/-- `ProjectStore::read_record`, of a record of the kind: what is read has the digest that it is read by. -/
def readRecord (kind : RecordKind) (reference : ObjectRef) : Except BundleError Record := do
  refuse (reference.recordKind ≠ kind) (.corrupt "typed record kind mismatch")
  let record ← host.read reference
  refuse (enc.reference record ≠ reference) (.corrupt "record changed while decoding")
  return record

/-- A record that is not what it is read as. -/
def undecoded {α : Type} : Except BundleError α := .error (.corrupt "record payload")

def readVersionIndex (reference : Option ObjectRef) : Except BundleError VersionIndex :=
  match reference with
  | none => .ok .empty
  | some reference => do
    match ← readRecord enc host .versionIndex reference with
    | .versionIndex index => return index
    | _ => undecoded

def readFeedbackIndex (reference : Option ObjectRef) : Except BundleError FeedbackIndex :=
  match reference with
  | none => .ok .empty
  | some reference => do
    match ← readRecord enc host .feedbackIndex reference with
    | .feedbackIndex index => return index
    | _ => undecoded

def readRunIndex (reference : Option ObjectRef) : Except BundleError RunIndex :=
  match reference with
  | none => .ok .empty
  | some reference => do
    match ← readRecord enc host .runIndex reference with
    | .runIndex index => return index
    | _ => undecoded

def readCheckpoint (reference : ObjectRef) : Except BundleError BranchCheckpoint := do
  match ← readRecord enc host .branchCheckpoint reference with
  | .branchCheckpoint checkpoint => return checkpoint
  | _ => undecoded

/-- `ProjectStore::admit_record`. -/
def admitRecord (limits : StorageLimits) (record : Record) : Except BundleError ObjectRef := do
  record.validate enc.toRecordEncoding limits
  host.admission record
  return enc.reference record

/-! ## Reading the bundle -/

section Reading

variable (b : ProjectBundle)

/-- `ProjectBundle::version_index`. -/
def versionIndex : Except BundleError VersionIndex :=
  readVersionIndex enc host (b.held.root.bind StudioRoot.versionIndexRef)

/-- `ProjectBundle::feedback_index`. -/
def feedbackIndex : Except BundleError FeedbackIndex :=
  readFeedbackIndex enc host (b.held.root.bind StudioRoot.feedbackIndexRef)

/-- `ProjectBundle::run_index`. -/
def runIndex : Except BundleError RunIndex := readRunIndex enc host (b.held.root.bind StudioRoot.runIndexRef)

/-- `ProjectBundle::validate_snapshot`. -/
def validateSnapshot (descriptor : SnapshotDescriptor) : Except BundleError Unit := do
  refuse (descriptor.key.project ≠ b.projectId ∧ descriptor.key.project ∉ b.originProjectIds)
    (.identity "snapshot project")
  let checkpoint ← readCheckpoint enc host descriptor.checkpointRef
  refuse (checkpoint.headId ≠ descriptor.key.head ∨ checkpoint.documentHash ≠ descriptor.key.documentHash ∨
    checkpoint.documentRef ≠ descriptor.documentRef ∨
    checkpoint.lineageRef ≠ descriptor.lineageRef ∨
    checkpoint.inputManifestRef ≠ descriptor.inputManifestRef)
    (.corrupt "snapshot checkpoint binding")

/-- `ProjectBundle::read_snapshot`. -/
def readSnapshot (key : SnapshotKey) : Except BundleError SnapshotDescriptor := do
  let index ← versionIndex enc host b
  let descriptor ← okOr (.identity "snapshot is not indexed with this identity")
    ((index.snapshots.get? key.version).filter fun descriptor => descriptor.key = key)
  validateSnapshot enc host b descriptor
  host.pin descriptor.references
  return descriptor

/-- `ProjectBundle::read_feedback`. -/
def readFeedback (reference : ObjectRef) : Except BundleError FeedbackRevision := do
  let index ← feedbackIndex enc host b
  refuse (¬ ∃ entry ∈ index.revisions.entries, reference ∈ entry.2) (.identity "feedback is not indexed")
  match ← readRecord enc host .feedbackRevision reference with
  | .feedbackRevision revision => do
    host.pin [reference]
    return revision
  | _ => undecoded

end Reading

/-! ## Feedback -/

/-- The loop of `validate_strokes`: the points so far, and the elements that are left. -/
def countPoints (limit : UInt64) : ℕ → List (Except String StrokeElement) → Except BundleError Unit
  | _, [] => .ok ()
  | _, .error error :: _ => .error (.corrupt error)
  | _, .ok (.stroke 0) :: _ => .error (.corrupt "empty stroke")
  | count, .ok element :: elements => do
    let count := count + match element with
      | .point => 1
      | .stroke points => points
    refuse (limit.toNat < count) (.capacity "comment points")
    countPoints limit count elements

/-- `validate_strokes`. -/
def validateStrokes (limit : UInt64) (bytes : ByteArray) : Except BundleError Unit :=
  countPoints limit 0 (host.parseStrokes bytes)

variable (b : ProjectBundle)

/-- What a change gives to the feedback that is already there. -/
abbrev FeedbackChange := Except BundleError (FeedbackIndex × MetadataResult)

/-- The revisions of a comment so far. -/
def FeedbackIndex.revisionsOf (feedback : FeedbackIndex) (comment : CommentId) : List ObjectRef :=
  (feedback.revisions.get? comment).getD []

/-- The change that saves a revision of a comment. -/
def saveFeedback (feedback : FeedbackIndex) (revision : FeedbackRevision) : FeedbackChange := do
  revision.validate enc.toRecordEncoding b.limits
  let _ ← readSnapshot enc host b revision.anchor.snapshot
  refuse (feedback.revisions.contains revision.commentId = false ∧
    b.limits.comments.toNat ≤ feedback.revisions.keys.card) (.capacity "Studio comments")
  let previous := feedback.revisionsOf revision.commentId
  refuse (revision.revision.toNat ≠ previous.length + 1 ∨ revision.predecessor ≠ previous.getLast?) .historyChanged
  let text ← host.readEvidence revision.originalTextRef
  refuse ((String.fromUTF8? text).isNone = true) (.corrupt "invalid utf-8 sequence")
  let strokes ← host.readEvidence revision.strokesRef
  validateStrokes host b.limits.commentPoints strokes
  refuse (FRAME_PROOF_BYTES < revision.frameProofRef.byteLength) (.capacity "frame proof bytes")
  let _ ← host.readEvidence revision.frameProofRef
  refuse (∃ voice ∈ revision.voiceRef, ¬ ∃ saved ∈ feedback.notes.get? voice.noteId, voice.matchesNote saved)
    (.identity "voice must be saved before feedback")
  let sealed ← admitRecord enc host b.limits (.feedbackRevision revision)
  return ({ feedback with
    revisions := feedback.revisions.insert revision.commentId (previous ++ [sealed]) },
    .feedback sealed)

/-- What was said first in a voice note is kept. -/
def VoiceRef.keeps (voice previous : VoiceRef) : Prop :=
  voice.audioRef = previous.audioRef ∧ voice.durationMicros = previous.durationMicros ∧
    voice.playheadLogRef = previous.playheadLogRef ∧
    ∀ reference ∈ previous.originalAsrRef, voice.originalAsrRef = some reference

instance (voice previous : VoiceRef) : Decidable (voice.keeps previous) := inferInstanceAs (Decidable (_ ∧ _))

/-- The change that saves a voice note. -/
def saveVoice (feedback : FeedbackIndex) (voice : VoiceRef) : FeedbackChange := do
  validateVoice b.limits voice
  refuse (∃ previous ∈ feedback.notes.get? voice.noteId, ¬ voice.keeps previous)
    (.identity "original voice evidence changed")
  return ({ feedback with notes := feedback.notes.insert voice.noteId voice }, .voice voice.noteId)

/-- The change that submits a batch of feedback. -/
def submitBatch (id : CommandId) (feedback : FeedbackIndex) (batch : FeedbackBatch)
    (request : ReviseRequest) : FeedbackChange := do
  batch.validate enc.toRecordEncoding b.limits
  refuse (batch.batchId ≠ request.batchId ∨ id ≠ request.commandId ∨ feedback.batches.contains batch.batchId = true)
    (.identity "immutable batch/request identity")
  all (fun reference => do
    let _ ← readFeedback enc host b reference) batch.revisionRefs
  let sealed ← admitRecord enc host b.limits (.feedbackBatch batch)
  return ({ feedback with
    batches := feedback.batches.insert batch.batchId ⟨sealed, request, none⟩ }, .batch batch.batchId)

/-! ## Runs -/

/-- The batch is consumed by the run. -/
def FeedbackIndex.consume (feedback : FeedbackIndex) (batch : FeedbackBatchId)
    (submitted : SubmittedBatch) (run : RunId) : FeedbackIndex :=
  { feedback with
    batches := feedback.batches.insert batch { submitted with consumedBy := some run } }

/-- What a change gives to the feedback and to the runs. -/
abbrev RunChange := Except BundleError (FeedbackIndex × RunIndex)

/-- The check of the records of one kind: they are all about the run. -/
def checkBound (run : RunId) (refs : RecordKind × List ObjectRef) : Except BundleError Unit :=
  all (fun reference => do
    match ← readRecord enc host refs.1 reference with
    | .ofRun _ bound => refuse (bound ≠ run) (.identity "orchestration record run binding")
    | _ => undecoded) refs.2

/-- `ProjectBundle::validate_run_bindings`. -/
def validateRunBindings (run : RunRecord) : Except BundleError Unit := all (checkBound enc host run.runId) run.records

/-- One run of a change of runs. -/
def putRun (index : RunIndex) (run : RunRecord) : Except BundleError RunIndex := do
  all (fun previous : RunRecord => do
    refuse (run.projection.sequence ≤ previous.projection.sequence) .historyChanged
    refuse (¬ ∀ reference ∈ previous.references, reference ∈ run.references)
      (.identity "orchestration evidence removal"))
    (index.runs.get? run.runId).toList
  validateRunBindings enc host run
  return { index with runs := index.runs.insert run.runId run }

/-- The loop over the runs of a change. -/
def putRuns (index : RunIndex) : List RunRecord → Except BundleError RunIndex
  | [] => .ok index
  | run :: runs => do
    let index ← putRun enc host index run
    putRuns index runs

/-- The batch that a change of runs consumes. -/
def consumeBatch (feedback : FeedbackIndex) (runs : List RunRecord) :
    Option (FeedbackBatchId × RunId) → Except BundleError FeedbackIndex
  | none => .ok feedback
  | some (batch, run) => do
    let submitted ← okOr (.identity "unsubmitted run batch") (feedback.batches.get? batch)
    refuse ((¬ ∃ record ∈ runs, record.runId = run) ∨ ∃ old ∈ submitted.consumedBy, old ≠ run)
      (.identity "batch already consumed/unknown run")
    return feedback.consume batch submitted run

/-- The change of the runs of the first scheduler. -/
def changeRuns (feedback : FeedbackIndex) (runs : List RunRecord)
    (batch : Option (FeedbackBatchId × RunId)) : RunChange := do
  let original ← runIndex enc host b
  refuse (runs = [] ∨ b.limits.versions.toNat < runs.length ∨ ¬ (runs.map RunRecord.runId).Nodup)
    (.capacity "run update entries")
  let index ← putRuns enc host original runs
  let feedback ← consumeBatch feedback runs batch
  return (feedback, index)

/-- `ProjectBundle::revises_head`: the base is the head, or a fork of it in which nothing was done yet. -/
def revisesHead (base : BranchBinding) (expected : HeadId) : Except BundleError Bool := do
  if base.head = expected then return true
  else do
    let candidate ← readCheckpoint enc host base.checkpoint
    let manual ← b.checkpoint b.manualBranchId
    if base.branch = b.manualBranchId then return false
    else do
      let reference ← host.checkpointReference base.branch
      return decide (reference = base.checkpoint ∧ candidate.branchId = base.branch ∧
        candidate.headId = base.head ∧ candidate.batchIds = [] ∧
        candidate.documentHash = base.documentHash ∧ manual.headId = expected ∧
        manual.documentHash = candidate.documentHash)

/-- The receipt that goes with a validated update. -/
def receiptOf (transition : ValidatedRunUpdate) : OrchestrationReceipt where
  envelope := transition.envelope
  generation := transition.generation
  sequence := transition.projection.sequence
  decision := transition.decision

/-- `ValidatedRunUpdate::validate_returned_receipt`, of its own receipt. -/
def validateReturned (transition : ValidatedRunUpdate) : Except Orchestration.Refusal Unit := do
  transition.envelope.validate enc.orchestration
  refuse ((receiptOf transition).generation = 0) .invalidState

/-- The sequence after the last cut of a run. -/
def nextSequence (cuts : List PublishedRunCut) : ℕ :=
  match cuts.getLast? with
  | none => 1
  | some cut => min (cut.receipt.sequence + 1) (2 ^ 64 - 1)

/-- The batch that an update consumes. -/
def consumeSubmitted (transition : ValidatedRunUpdate) (feedback : FeedbackIndex) :
    Option FeedbackBatchId → Except BundleError FeedbackIndex
  | none => .ok feedback
  | some batch => do
    refuse (transition.decision ≠ .applied) (invalidText "refused feedback consumption")
    let submitted ← okOr (invalidText "unsubmitted batch") (feedback.batches.get? batch)
    let director ← okOr (invalidText "feedback run has no Director") transition.projection.tasks.head?
    let revises ← revisesHead enc host b director.brief.scope.base submitted.request.expectedCandidateHead
    refuse (revises = false) (invalidText "feedback candidate head changed")
    refuse (∃ old ∈ submitted.consumedBy, old ≠ transition.projection.run) (invalidText "batch already consumed")
    return feedback.consume batch submitted transition.projection.run

/-- `ProjectBundle::stage_orchestration_update`. -/
def stageOrchestrationUpdate (envelope : MetadataEnvelope) (transition : ValidatedRunUpdate)
    (batch : Option FeedbackBatchId) (feedback : FeedbackIndex) : RunChange := do
  (validateReturned enc transition).mapError invalid
  refuse (transition.envelope.project ≠ b.projectId ∨ transition.envelope.id ≠ envelope.id ∨
    transition.envelope.authority.ownerEpoch ≠ b.ownerEpoch.toNat ∨
    transition.envelope.expectedGeneration ≠ b.held.generation) (invalidText "publication envelope")
  let index ← runIndex enc host b
  let run := transition.projection.run
  let cuts := (index.orchestration.get? run).getD []
  refuse (transition.projection.sequence ≠ nextSequence cuts ∨
    transition.segment.previous ≠ cuts.getLast?.map PublishedRunCut.segment)
    (invalidText "successor isolation")
  let feedback ← consumeSubmitted enc host b transition feedback batch
  let snapshot ← admitRecord enc host b.limits (.snapshot transition.projection)
  let segment ← admitRecord enc host b.limits (.eventSegment transition.segment)
  let cut : PublishedRunCut := ⟨envelope, receiptOf transition, snapshot, segment, batch⟩
  return (feedback, { index with orchestration := index.orchestration.insert run (cuts ++ [cut]) })

/-! ## Snapshots -/

/-- The change that publishes a snapshot. -/
def publishSnapshot (publish : PublishSnapshot) : Except BundleError (VersionIndex × MetadataResult) := do
  let versions ← versionIndex enc host b
  refuse (versions.snapshots.contains publish.version = true ∨
    b.limits.versions.toNat ≤ versions.snapshots.keys.card) (.capacity "Studio versions")
  let checkpoint ← readCheckpoint enc host publish.checkpointRef
  refuse (checkpoint.headId ≠ publish.expectedHead) .historyChanged
  let reference ← host.checkpointReference checkpoint.branchId
  refuse (reference ≠ publish.checkpointRef) .historyChanged
  let key : SnapshotKey :=
    ⟨b.projectId, publish.version, checkpoint.headId, checkpoint.documentHash, checkpoint.inputManifestRef⟩
  let descriptor : SnapshotDescriptor := {
    key := key
    checkpointRef := publish.checkpointRef
    documentRef := checkpoint.documentRef
    lineageRef := checkpoint.lineageRef
    inputManifestRef := checkpoint.inputManifestRef
    revisionRefs := publish.revisionRefs
    parentVersion := publish.parentVersion
    runProvenance := publish.runProvenance }
  validateSnapshot enc host b descriptor
  all (fun reference => do
    let _ ← readFeedback enc host b reference) publish.revisionRefs
  return ({ versions with snapshots := versions.snapshots.insert publish.version descriptor }, .snapshot key)

/-! ## All changes -/

/-- A change of feedback only, sealed. -/
def sealFeedback (change : FeedbackIndex × MetadataResult) :
    Except BundleError (ValidatedMetadataUpdate × MetadataResult) := do
  let sealed ← admitRecord enc host b.limits (.feedbackIndex change.1)
  return (⟨none, some sealed, none⟩, change.2)

/-- A change of runs, sealed, with the feedback that they consume. -/
def sealRuns (runs : List RunId) (change : FeedbackIndex × RunIndex) :
    Except BundleError (ValidatedMetadataUpdate × MetadataResult) := do
  let sealed ← admitRecord enc host b.limits (.runIndex change.2)
  let feedback ← admitRecord enc host b.limits (.feedbackIndex change.1)
  return (⟨none, some feedback, some sealed⟩, .orchestration runs)

/-- `ProjectBundle::validate_metadata`. -/
def validateMetadata (envelope : MetadataEnvelope) (update : MetadataUpdate) :
    Except BundleError (ValidatedMetadataUpdate × MetadataResult) := do
  let feedback ← feedbackIndex enc host b
  match update.change with
  | .orchestrationUpdate transition batch => do
    let change ← stageOrchestrationUpdate enc host b envelope transition batch feedback
    sealRuns enc host b [transition.projection.run] change
  | .publishSnapshot publish => do
    let change ← publishSnapshot enc host b publish
    let sealed ← admitRecord enc host b.limits (.versionIndex change.1)
    return (⟨some sealed, none, none⟩, change.2)
  | .saveFeedback revision => do
    let change ← saveFeedback enc host b feedback revision
    sealFeedback enc host b change
  | .saveVoice voice => do
    let change ← saveVoice b feedback voice
    sealFeedback enc host b change
  | .submitBatch batch request => do
    let change ← submitBatch enc host b envelope.id feedback batch request
    sealFeedback enc host b change
  | .orchestration runs batch => do
    let change ← changeRuns enc host b feedback runs batch
    sealRuns enc host b (runs.map RunRecord.runId) change

/-- `MetadataEnvelope::receipt_envelope`. -/
def MetadataEnvelope.receiptEnvelope (envelope : MetadataEnvelope) (update : MetadataUpdate) :
    Except BundleError CommandEnvelope := do
  bounded (enc.updateBytes update).toNat StorageLimits.default.commandBytes
  return {
    switch := none
    manual := none
    version := 1
    action := "metadata"
    id := envelope.id
    projectId := envelope.projectId
    targetBranch := envelope.targetBranch
    ownerEpoch := envelope.ownerEpoch
    lease := none
    expectedHead := envelope.expectedHead
    expectedRevision := 0
    command := none
    commentText := none
    commentStrokes := none
    evidence := [⟨enc.updateDigest update, enc.updateBytes update, .ownedEvidence⟩]
    transition := none }

end Kinewright.Studio
