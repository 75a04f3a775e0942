import Kinewright.Lib.KeyedMap
import Kinewright.Studio.Records

/-!
# The indexes of a Studio

`studio_records.rs`, `studio_store.rs`: what is recorded of the snapshots, the feedback and the runs of a
project is found through three indexes, of which the root of the project names one version each. The checks
that a record passes before it is sealed are here too.
-/

namespace Kinewright.Studio

open Fallible Json Bundle Orchestration
open Accounting (RecordKind ObjectRef CommandId)
open Orchestration (ProjectId BranchId HeadId OrchestrationEnvelope CommandDecision
  ValidatedRunUpdate RunProjection EventSegment)

/-! ## Indexes -/

structure VersionIndex where
  version : ℕ
  snapshots : KeyedMap VersionId SnapshotDescriptor
deriving DecidableEq

structure SubmittedBatch where
  batchRef : ObjectRef
  request : ReviseRequest
  consumedBy : Option RunId
deriving DecidableEq

structure FeedbackIndex where
  version : ℕ
  revisions : KeyedMap CommentId (List ObjectRef)
  batches : KeyedMap FeedbackBatchId SubmittedBatch
  notes : KeyedMap NoteId VoiceRef
deriving DecidableEq

structure MetadataEnvelope where
  id : CommandId
  projectId : ProjectId
  targetBranch : BranchId
  ownerEpoch : UInt64
  expectedHead : Option HeadId
deriving DecidableEq

/-- `OrchestrationReceipt`, without the digest of the cut. -/
structure OrchestrationReceipt where
  envelope : OrchestrationEnvelope
  generation : ℕ
  sequence : ℕ
  decision : CommandDecision
deriving DecidableEq

structure PublishedRunCut where
  metadataEnvelope : MetadataEnvelope
  receipt : OrchestrationReceipt
  snapshot : ObjectRef
  segment : ObjectRef
  consumedBatch : Option FeedbackBatchId
deriving DecidableEq

/-- `PublishedRunCut::references`. -/
def PublishedRunCut.references (cut : PublishedRunCut) : List ObjectRef :=
  [cut.snapshot, cut.segment, cut.receipt.envelope.authority.grantRef]

structure RunIndex where
  version : ℕ
  runs : KeyedMap RunId RunRecord
  orchestration : KeyedMap Orchestration.RunId (List PublishedRunCut)
deriving DecidableEq

/-- `VersionIndex::default`. -/
def VersionIndex.empty : VersionIndex := ⟨1, .empty⟩

/-- `FeedbackIndex::default`. -/
def FeedbackIndex.empty : FeedbackIndex := ⟨1, .empty, .empty, .empty⟩

/-- `RunIndex::default`. -/
def RunIndex.empty : RunIndex := ⟨1, .empty, .empty⟩

/-! ## Records -/

/-- `BranchCheckpoint`, of which only what binds a snapshot or a command to it is kept. -/
structure BranchCheckpoint where
  branchId : BranchId
  headId : HeadId
  documentRef : ObjectRef
  documentHash : String
  historyRef : ObjectRef
  lineageRef : ObjectRef
  inputManifestRef : ObjectRef
  batchIds : List String
deriving DecidableEq

/-- What may be sealed in the store, or read from it, by the commands on metadata. -/
inductive Record
  | versionIndex (index : VersionIndex)
  | feedbackIndex (index : FeedbackIndex)
  | feedbackRevision (revision : FeedbackRevision)
  | feedbackBatch (batch : FeedbackBatch)
  | runIndex (index : RunIndex)
  | snapshot (projection : RunProjection)
  | eventSegment (segment : EventSegment)
  | branchCheckpoint (checkpoint : BranchCheckpoint)
  /-- A record of a run of the first scheduler, of which only the run is read. -/
  | ofRun (kind : RecordKind) (run : RunId)
deriving DecidableEq

/-- `BundleRecord::KIND`. The records of the later scheduler are of the kind of the index. -/
def Record.kind : Record → RecordKind
  | .versionIndex _ => .versionIndex
  | .feedbackIndex _ => .feedbackIndex
  | .feedbackRevision _ => .feedbackRevision
  | .feedbackBatch _ => .feedbackBatch
  | .runIndex _ | .snapshot _ | .eventSegment _ => .runIndex
  | .branchCheckpoint _ => .branchCheckpoint
  | .ofRun kind _ => kind

/-! ## Changes -/

inductive MetadataScope
  | feedback | snapshot | orchestration
deriving DecidableEq

inductive MetadataChange
  | publishSnapshot (publish : PublishSnapshot)
  | saveFeedback (revision : FeedbackRevision)
  | saveVoice (voice : VoiceRef)
  | submitBatch (batch : FeedbackBatch) (request : ReviseRequest)
  | orchestration (runs : List RunRecord) (consumeBatch : Option (FeedbackBatchId × RunId))
  | orchestrationUpdate (transition : ValidatedRunUpdate) (consumeBatch : Option FeedbackBatchId)

structure MetadataUpdate where
  expectedRootGeneration : ℕ
  change : MetadataChange

inductive MetadataResult
  | snapshot (key : SnapshotKey)
  | feedback (reference : ObjectRef)
  | voice (note : NoteId)
  | batch (batch : FeedbackBatchId)
  | orchestration (runs : List RunId)
deriving DecidableEq

/-- `MetadataResult::references`. -/
def MetadataResult.references : MetadataResult → List ObjectRef
  | .snapshot key => [key.inputManifestRef]
  | .feedback reference => [reference]
  | _ => []

/-- The changes of a scope. -/
def MetadataScope.allows : MetadataScope → MetadataChange → Bool
  | .feedback, .saveFeedback _ | .feedback, .saveVoice _ | .feedback, .submitBatch _ _ => true
  | .snapshot, .publishSnapshot _ => true
  | .orchestration, .orchestration _ _ | .orchestration, .orchestrationUpdate _ _ => true
  | _, _ => false

/-! ## Encoding -/

/-- What the serializer and the hash give: how long a record is, and the digest that it is found by. -/
structure RecordEncoding where
  orchestration : Orchestration.Encoding
  digest : Record → String
  bytes : Record → UInt64
  viewBytes : RunView → ℕ
  updateBytes : MetadataUpdate → UInt64
  updateDigest : MetadataUpdate → String

/-- The reference that a record is sealed under. -/
def RecordEncoding.reference (enc : RecordEncoding) (record : Record) : ObjectRef :=
  ⟨enc.digest record, enc.bytes record, record.kind⟩

/-! ## Checks of records -/

variable (enc : RecordEncoding) (limits : StorageLimits)

/-- The end of every check of a record: its references, and how long it is. -/
def checkRecord (record : Record) (dependencies : List ObjectRef) : Except BundleError Unit := do
  all validateRef dependencies
  bounded (enc.bytes record).toNat limits.decodedRecordBytes

/-- `validate_voice`. -/
def validateVoice (voice : VoiceRef) : Except BundleError Unit := do
  checkKind .ownedEvidence voice.audioRef
  refuse (voice.durationMicros = 0 ∨ 120000000 < voice.durationMicros ∨ limits.voiceBytes < voice.audioRef.byteLength ∨
    ∃ range ∈ voice.range, range.endMicros ≤ range.startMicros ∨
      voice.durationMicros < range.endMicros) (.capacity "voice duration/bytes/range")
  all (checkKind .ownedEvidence) voice.references

/-- One snapshot of an index. -/
def checkSnapshot (index : VersionIndex) (entry : VersionId × SnapshotDescriptor) : Except BundleError Unit := do
  let descriptor := entry.2
  refuse (entry.1 ≠ descriptor.key.version ∨ descriptor.key.documentHash ≠ descriptor.documentRef.sha256 ∨
    descriptor.inputManifestRef ≠ descriptor.key.inputManifestRef ∨
    ∃ parent ∈ descriptor.parentVersion, parent = entry.1 ∨ index.snapshots.contains parent = false)
    (.corrupt "snapshot descriptor binding")
  checkKind .branchCheckpoint descriptor.checkpointRef
  checkKind .document descriptor.documentRef
  checkKind .lineage descriptor.lineageRef
  checkKind .inputManifest descriptor.inputManifestRef
  refuse (limits.comments.toNat < descriptor.revisionRefs.length) (.capacity "snapshot revision refs")
  all (checkKind .feedbackRevision) descriptor.revisionRefs

def VersionIndex.validate (index : VersionIndex) : Except BundleError Unit := do
  schema index.version
  refuse (limits.versions.toNat < index.snapshots.keys.card) (.capacity "Studio versions")
  all (checkSnapshot limits index) index.snapshots.entries
  checkRecord enc limits (.versionIndex index) (index.snapshots.entries.flatMap fun entry => entry.2.references)

def FeedbackRevision.validate (revision : FeedbackRevision) : Except BundleError Unit := do
  let anchor := revision.anchor
  refuse (revision.revision = 0 ∨ anchor.frame < 0 ∨ anchor.fps.numerator = 0 ∨
    anchor.fps.denominator = 0 ∨ anchor.rasterSize.1 = 0 ∨ anchor.rasterSize.2 = 0 ∨
    (∃ beat ∈ anchor.scriptBeatId, 256 < beat.utf8ByteSize) ∨
    ¬ (revision.revision = 1 ↔ revision.predecessor = none))
    (.corrupt "feedback anchor/revision")
  checkKind .inputManifest anchor.snapshot.inputManifestRef
  all (checkKind .ownedEvidence) [revision.originalTextRef, revision.strokesRef, revision.frameProofRef]
  refuse (limits.commentTextBytes < revision.originalTextRef.byteLength ∨
    limits.commandBytes < revision.strokesRef.byteLength) (.capacity "feedback text/strokes")
  all (checkKind .feedbackRevision) revision.predecessor.toList
  all (validateVoice limits) revision.voiceRef.toList
  checkRecord enc limits (.feedbackRevision revision) revision.references

def FeedbackBatch.validate (batch : FeedbackBatch) : Except BundleError Unit := do
  refuse (batch.revisionRefs = [] ∨ limits.comments.toNat < batch.revisionRefs.length ∨
    ¬ batch.revisionRefs.Nodup) (.capacity "feedback batch revisions")
  all (checkKind .feedbackRevision) batch.revisionRefs
  checkRecord enc limits (.feedbackBatch batch) batch.revisionRefs

/-- The revisions of one comment. -/
def checkRevisions (entry : CommentId × List ObjectRef) : Except BundleError Unit := do
  refuse (entry.2 = []) (.corrupt "empty feedback revision history")
  all (checkKind .feedbackRevision) entry.2

def checkBatch (entry : FeedbackBatchId × SubmittedBatch) : Except BundleError Unit := do
  refuse (entry.1 ≠ entry.2.request.batchId) (.corrupt "batch request binding")
  checkKind .feedbackBatch entry.2.batchRef

def checkNote (entry : NoteId × VoiceRef) : Except BundleError Unit := do
  refuse (entry.1 ≠ entry.2.noteId) (.corrupt "note identity")
  validateVoice limits entry.2

def FeedbackIndex.validate (index : FeedbackIndex) : Except BundleError Unit := do
  schema index.version
  refuse (limits.comments.toNat < index.revisions.keys.card ∨ limits.comments.toNat < index.batches.keys.card ∨
    limits.comments.toNat < index.notes.keys.card ∨
    limits.receipts.toNat < index.revisions.total List.length) (.capacity "feedback index entries")
  all checkRevisions index.revisions.entries
  all checkBatch index.batches.entries
  all (checkNote limits) index.notes.entries
  checkRecord enc limits (.feedbackIndex index)
    (index.revisions.entries.flatMap Prod.snd ++ index.batches.entries.map (fun entry => entry.2.batchRef) ++
      index.notes.entries.flatMap fun entry => entry.2.references)

/-- The cuts of one run. -/
def checkCuts (entry : Orchestration.RunId × List PublishedRunCut) : Except BundleError Unit :=
  refuse (entry.2 = [] ∨ limits.receipts.toNat < entry.2.length) (.capacity "orchestration cuts")

/-- References of one kind of records of a run. -/
def checkRunRefs (refs : RecordKind × List ObjectRef) : Except BundleError Unit := do
  refuse (limits.objects.toNat < refs.2.length) (.capacity "run record refs")
  all (checkKind refs.1) refs.2

def checkRun (entry : RunId × RunRecord) : Except BundleError Unit := do
  let run := entry.2
  refuse (entry.1 ≠ run.runId ∨ entry.1 ≠ run.projection.runId) (.corrupt "run projection identity")
  run.projection.validate enc.viewBytes
  all (checkRunRefs limits) run.records

def RunIndex.validate (index : RunIndex) : Except BundleError Unit := do
  schema index.version
  refuse (limits.versions.toNat < index.runs.keys.card + index.orchestration.keys.card) (.capacity "run index entries")
  all (checkCuts limits) index.orchestration.entries
  all (checkRun enc limits) index.runs.entries
  checkRecord enc limits (.runIndex index) (index.runs.entries.flatMap (fun entry => entry.2.references) ++
      index.orchestration.entries.flatMap fun entry => entry.2.flatMap PublishedRunCut.references)

/-- How a refusal of the orchestration is printed. -/
def printedRefusal : Refusal → String
  | .unsupported => "Unsupported"
  | .capacity => "Capacity"
  | .scopeConflict => "ScopeConflict"
  | .staleGeneration => "StaleGeneration"
  | .staleControl => "StaleControl"
  | .invalidState => "InvalidState"
  | .unknown => "Unknown"
  | .retiredUnresolved => "RetiredUnresolved"
  | .unresolvedOrigin => "UnresolvedOrigin"
  | .publicationUnknown => "PublicationUnknown"
  | .dependencyCapacity => "DependencyCapacity"
  | .h3AttentionUnavailable => "H3AttentionUnavailable"

/-- `invalid`: the error of the orchestration for a refusal. -/
def invalid (refusal : Refusal) : BundleError := .identity ("orchestration: " ++ printedRefusal refusal)

/-- `invalid`: the error of the orchestration for a text, which is printed in quotes. -/
def invalidText (text : String) : BundleError := .identity ("orchestration: \"" ++ text ++ "\"")

/-- `BundleRecord::validate`, of the records that are sealed here. -/
def Record.validate : Record → Except BundleError Unit
  | .versionIndex index => index.validate enc limits
  | .feedbackIndex index => index.validate enc limits
  | .feedbackRevision revision => revision.validate enc limits
  | .feedbackBatch batch => batch.validate enc limits
  | .runIndex index => index.validate enc limits
  | .snapshot projection => do
    let _ ← (snapshotDependencies enc.orchestration projection).mapError invalid
    bounded (enc.bytes (.snapshot projection)).toNat limits.controlBytes
  | .eventSegment segment => do
    let _ ← (segmentDependencies enc.orchestration segment).mapError invalid
    bounded (enc.bytes (.eventSegment segment)).toNat limits.controlBytes
  | .branchCheckpoint _ | .ofRun _ _ => .ok ()

end Kinewright.Studio
