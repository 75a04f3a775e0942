import Kinewright.Accounting.Mutators
import Kinewright.Studio.Indexes

/-!
# Receipts and issuers

`receipts.rs`: a command is named by its issuer and a sequence number, and what became of it is kept as a
receipt. The ledger answers a command that is sent again, and the table of the issuers says which number
comes next.
-/

namespace Kinewright.Bundle

open Fallible Studio
open Accounting (RecordKind ObjectRef CommandId)
open Orchestration (ProjectId BranchId HeadId)

abbrev IssuerId := String
abbrev BatchId := String
abbrev CommandDigest := String

/-- `IssuerId::validate`. -/
def validateIssuer (id : IssuerId) : Except BundleError Unit :=
  refuse (isHex id 32 = false) (.corrupt "invalid issuer identity")

/-- `u64::checked_add(1)`. -/
def checkedNext (n : UInt64) : Option UInt64 := Accounting.checkedAdd n 1

/-! ## Commands -/

/-- `HistoryRequest`. -/
inductive HistoryRequest
  | floor (discardBatches precedingCheckpointGeneration precedingFloorGeneration : UInt64) (commandCut : CommandId)
  | recoveryClose (precedingCheckpointGeneration : UInt64) (reconciledCut : Option CommandId) (suffixDigest : String)
deriving DecidableEq

/-- The request discards a prefix of the history. -/
def HistoryRequest.isFloor : HistoryRequest → Bool
  | .floor .. => true
  | .recoveryClose .. => false

structure OriginalCommand where
  id : CommandId
  digest : CommandDigest
deriving DecidableEq

/-- `ManualLease`, of which only what an admitted command is compared with is kept. -/
structure ManualLease where
  token : String
  switchGeneration : ℕ
  issuer : IssuerId
  anchorHead : HeadId
  inputs : ObjectRef
deriving DecidableEq

/-- `ManualHistoryIdentity`, without what is only compared with the histories. -/
structure ManualHistoryIdentity where
  recoveryOrigin : Option OriginalCommand
  binding : ManualLease
  batchId : BatchId
  predecessor : Option BatchId
  beforeSha256 : String
deriving DecidableEq

inductive SwitchTarget
  | workingBranch (branch : BranchId)
  | checkpoint (root : ObjectRef) (branch : BranchId)
  | snapshot (root : ObjectRef) (branch : BranchId) (version : String)
deriving DecidableEq

/-- The version of a target that names one is an identity. -/
def SwitchTarget.isNamed : SwitchTarget → Bool
  | .snapshot _ _ version => isHex version 32
  | _ => true

structure SwitchRequest where
  target : SwitchTarget
  sourceCheckpoint : ObjectRef
  checkpointGeneration : UInt64
  floorGeneration : UInt64
  switchGeneration : UInt64
deriving DecidableEq

/-- `CommandEnvelope`. The command for the journal is kept as it is serialized. -/
structure CommandEnvelope where
  switch : Option SwitchRequest
  manual : Option ManualHistoryIdentity
  version : ℕ
  action : String
  id : CommandId
  projectId : ProjectId
  targetBranch : BranchId
  ownerEpoch : UInt64
  lease : Option String
  expectedHead : Option HeadId
  expectedRevision : UInt64
  command : Option String
  commentText : Option ObjectRef
  commentStrokes : Option ObjectRef
  evidence : List ObjectRef
  transition : Option HistoryRequest
deriving DecidableEq

/-- What the serializer and the hash give for records and commands. -/
structure Encoding extends RecordEncoding where
  commandBytes : CommandEnvelope → ℕ
  commandDigest : CommandEnvelope → CommandDigest

namespace CommandEnvelope

/-- The command carries nothing that only another action does. -/
def isBare (envelope : CommandEnvelope) : Prop :=
  envelope.command = none ∧ envelope.commentText = none ∧ envelope.commentStrokes = none ∧ envelope.evidence = []

instance (envelope : CommandEnvelope) : Decidable envelope.isBare := inferInstanceAs (Decidable (_ ∧ _))

/-- The check of what a metadata command carries. -/
def checkMetadata (envelope : CommandEnvelope) : Except BundleError Unit :=
  match envelope.evidence with
  | [reference] =>
    if envelope.switch = none ∧ envelope.manual = none ∧ envelope.lease = none ∧
        envelope.transition = none ∧ envelope.command = none ∧ envelope.commentText = none ∧
        envelope.commentStrokes = none ∧ reference.recordKind = .ownedEvidence
    then validateRef reference
    else .error (.unsupported "command action/payload, including branch switch")
  | _ => .error (.unsupported "command action/payload, including branch switch")

/-- The check of what a command for another branch carries. -/
def checkSwitch (envelope : CommandEnvelope) : Except BundleError Unit :=
  match envelope.switch with
  | none => .error (.unsupported "command action/payload, including branch switch")
  | some request => do
    refuse (¬ (envelope.lease ≠ none ∧ envelope.transition = none ∧ envelope.isBare))
      (.unsupported "command action/payload, including branch switch")
    refuse (request.target.isNamed = false) (.unsupported "snapshot version identity")

/-- What a command carries is what its action needs. -/
def checkAction (envelope : CommandEnvelope) : Except BundleError Unit :=
  if envelope.action = "metadata" then envelope.checkMetadata
  else if envelope.action = "switch" then envelope.checkSwitch
  else refuse (¬ ((envelope.action = "edit" ∧ envelope.transition = none ∧ envelope.command ≠ none ∧
      envelope.commentText = none ∧ envelope.commentStrokes = none ∧ envelope.evidence = []) ∨
    (envelope.action = "manual" ∧ envelope.manual ≠ none ∧ envelope.lease ≠ none ∧
      envelope.transition = none ∧ envelope.command ≠ none ∧ envelope.commentText = none ∧
      envelope.commentStrokes = none ∧ envelope.evidence = []) ∨
    (envelope.action = "comment" ∧ envelope.transition = none ∧ envelope.command = none ∧
      envelope.commentText ≠ none ∧ envelope.commentStrokes ≠ none) ∨
    (envelope.action = "floor" ∧ (∃ request ∈ envelope.transition, request.isFloor = true) ∧ envelope.isBare) ∨
    (envelope.action = "recovery_close" ∧
      (∃ request ∈ envelope.transition, request.isFloor = false) ∧ envelope.isBare)))
    (.unsupported "command action/payload, including branch switch")

variable (enc : Encoding)

/-- `CommandEnvelope::encoded_bytes`. -/
def encodedBytes (envelope : CommandEnvelope) : Except BundleError ℕ := do
  validateIssuer envelope.id.issuer
  refuse (envelope.version ≠ 1 ∨ envelope.id.sequence = 0 ∨ ∃ lease ∈ envelope.lease, 256 < lease.utf8ByteSize)
    (.unsupported "command envelope version/identity")
  refuse (envelope.action ≠ "manual" ∧ envelope.manual ≠ none) (.unsupported "manual identity on ordinary command")
  refuse (envelope.action ≠ "switch" ∧ envelope.switch ≠ none) (.unsupported "switch payload on ordinary command")
  envelope.checkAction
  refuse (StorageLimits.default.commandBytes.toNat < enc.commandBytes envelope) (.capacity "command bytes")
  return enc.commandBytes envelope

/-- `CommandEnvelope::digest`. -/
def digest (envelope : CommandEnvelope) : Except BundleError CommandDigest := do
  let _ ← envelope.encodedBytes enc
  return enc.commandDigest envelope

end CommandEnvelope

/-! ## Receipts -/

structure SwitchBranch where
  branch : BranchId
  head : HeadId
  checkpoint : ObjectRef
  history : ObjectRef
  inputs : ObjectRef
  lineage : ObjectRef
deriving DecidableEq

structure SwitchResult where
  old : SwitchBranch
  new : SwitchBranch
  targetVersion : Option String
  switchGeneration : ℕ
  rootGeneration : ℕ
deriving DecidableEq

inductive ReceiptResult
  | metadata (result : MetadataResult)
  | switch (result : SwitchResult)
  | edit (checkpointRef : ObjectRef) (batchId : Option BatchId)
  | comment (recordId : String) (recordRef text strokes : ObjectRef) (evidence : List ObjectRef)
deriving DecidableEq

namespace ReceiptResult

/-- `ReceiptResult::dependencies`. -/
def dependencies : ReceiptResult → List ObjectRef
  | .metadata result => result.references
  | .switch result => [result.old.checkpoint, result.new.checkpoint]
  | .edit checkpointRef _ => [checkpointRef]
  | .comment _ recordRef text strokes evidence => [recordRef, text, strokes] ++ evidence

/-- The result of a comment, which is counted. -/
def isComment : ReceiptResult → Bool
  | .comment .. => true
  | _ => false

end ReceiptResult

structure CommandReceipt where
  recoveryOrigin : Option OriginalCommand
  id : CommandId
  digest : CommandDigest
  projectId : ProjectId
  targetBranch : BranchId
  originalEpoch : UInt64
  expectedHead : Option HeadId
  headId : HeadId
  generation : ℕ
  result : ReceiptResult
deriving DecidableEq

inductive ReceiptLookup
  | absent
  | pending
  | committed (receipt : CommandReceipt)
  | retired (receipt : CommandReceipt)
  | retiredUnresolved
  | unresolvedOrigin
  | idPayloadConflict
deriving DecidableEq

structure ReceiptLedger where
  detailed : List CommandReceipt
  retired : List CommandReceipt
  comments : UInt64
deriving DecidableEq

/-- The receipt is about the command, or about one that was recovered from it. -/
def CommandReceipt.isOf (receipt : CommandReceipt) (id : CommandId) : Bool :=
  decide (receipt.id = id) || receipt.recoveryOrigin.any fun origin => origin.id = id

/-- The digest that the receipt has for the command. -/
def CommandReceipt.expected (receipt : CommandReceipt) (id : CommandId) : CommandDigest :=
  ((receipt.recoveryOrigin.filter fun origin => origin.id = id).map OriginalCommand.digest).getD receipt.digest

namespace ReceiptLedger

/-- `ReceiptLedger::default`. -/
def empty : ReceiptLedger := ⟨[], [], 0⟩

/-- All receipts of the ledger. -/
def all (ledger : ReceiptLedger) : List CommandReceipt := ledger.detailed ++ ledger.retired

/-- `ReceiptLedger::lookup`. -/
def lookup (ledger : ReceiptLedger) (id : CommandId) (digest : CommandDigest) : ReceiptLookup :=
  match ledger.detailed.find? fun receipt => receipt.isOf id with
  | some receipt =>
    if receipt.expected id ≠ digest then .idPayloadConflict else .committed receipt
  | none => match ledger.retired.find? fun receipt => receipt.isOf id with
      | some receipt =>
        if receipt.expected id ≠ digest then .idPayloadConflict else .retired receipt
      | none => .absent

end ReceiptLedger

/-! ## Checks of the ledger -/

/-- The result of a switch is about two branches, and its references are of their kinds. -/
def checkSwitchResult (receipt : CommandReceipt) (result : SwitchResult) : Except BundleError Unit :=
  refuse ((∃ version ∈ result.targetVersion, isHex version 32 = false) ∨
    result.old.branch = result.new.branch ∨ result.rootGeneration ≠ receipt.generation ∨
    result.switchGeneration = 0 ∨ result.rootGeneration ≤ result.switchGeneration ∨
    result.old.branch ≠ receipt.targetBranch ∨ result.new.head ≠ receipt.headId ∨
    (∃ branch ∈ [result.old, result.new], branch.checkpoint.recordKind ≠ .branchCheckpoint) ∨
    (∃ branch ∈ [result.old, result.new], branch.history.recordKind ≠ .history) ∨
    (∃ branch ∈ [result.old, result.new], branch.inputs.recordKind ≠ .inputManifest) ∨
    ∃ branch ∈ [result.old, result.new], branch.lineage.recordKind ≠ .lineage)
    (.corrupt "switch result identity/kind")

/-- The result of a receipt is of its kind. -/
def checkResult (receipt : CommandReceipt) : Except BundleError Unit :=
  match receipt.result with
  | .switch result => checkSwitchResult receipt result
  | .edit checkpointRef _ =>
    refuse (checkpointRef.recordKind ≠ .branchCheckpoint) (.corrupt "edit checkpoint kind")
  | .comment recordId recordRef text strokes _ =>
    refuse (recordId.startsWith "comment-" = false ∨ recordId.utf8ByteSize ≠ 40 ∨
      ∃ reference ∈ [recordRef, text, strokes], reference.recordKind ≠ .ownedEvidence)
      (.corrupt "comment result identity/kind")
  | .metadata _ => .ok ()

/-- The identities that a receipt answers for. -/
def CommandReceipt.ids (receipt : CommandReceipt) : List CommandId :=
  receipt.id :: (receipt.recoveryOrigin.map OriginalCommand.id).toList

/-- One receipt of the ledger, after others. -/
def checkReceipt (before : List CommandReceipt) (receipt : CommandReceipt) : Except BundleError Unit := do
  let seen := before.flatMap CommandReceipt.ids
  validateIssuer receipt.id.issuer
  refuse (receipt.id.sequence = 0 ∨ receipt.generation = 0 ∨ isHex receipt.digest 64 = false ∨
    receipt.id ∈ seen) (.corrupt "receipt identity/digest")
  Fallible.all (fun origin : OriginalCommand => do
    validateIssuer origin.id.issuer
    refuse (origin.id.sequence = 0 ∨ isHex origin.digest 64 = false ∨
      origin.id ∈ seen ++ [receipt.id]) (.corrupt "recovery origin identity/digest"))
    receipt.recoveryOrigin.toList
  Fallible.all validateRef receipt.result.dependencies
  checkResult receipt

/-- `ReceiptLedger::validate`. -/
def ReceiptLedger.validate (limits : StorageLimits) (ledger : ReceiptLedger) : Except BundleError Unit := do
  refuse (limits.receipts.toNat < ledger.detailed.length + ledger.retired.length ∨
    limits.comments < ledger.comments) (.capacity "receipt/comment entries")
  allAfter checkReceipt [] ledger.all

/-! ## Issuers -/

structure IssuerState where
  nextSequence : UInt64
  reconciledHighWater : UInt64
  retired : Bool
  metadataSubject : Option String
deriving DecidableEq

namespace IssuerState

/-- All commands of the issuer are known to be reconciled. -/
def isReconciled (state : IssuerState) : Bool :=
  decide (checkedNext state.reconciledHighWater = some state.nextSequence)

/-- The issuer counts against the limit on issuers. -/
def isActive (state : IssuerState) : Bool := !state.retired || !state.isReconciled

end IssuerState

abbrev Issuers := KeyedMap IssuerId IssuerState

/-- The number of issuers that count against the limit. -/
def Issuers.active (issuers : Issuers) : ℕ := (issuers.filter fun _ state => state.isActive).keys.card

/-- One issuer of the table. -/
def checkIssuer (entry : IssuerId × IssuerState) : Except BundleError Unit := do
  validateIssuer entry.1
  refuse (∃ subject ∈ entry.2.metadataSubject, subject = "" ∨ 512 < subject.utf8ByteSize)
    (.capacity "metadata issuer subject")
  refuse (entry.2.nextSequence = 0 ∨ entry.2.nextSequence ≤ entry.2.reconciledHighWater)
    (.corrupt "issuer sequence/high water")

/-- The check of the table of issuers before it is sealed. -/
def Issuers.validate (limits : StorageLimits) (issuers : Issuers) : Except BundleError Unit := do
  refuse (limits.issuers.toNat < issuers.active) (.capacity "issuer entries")
  let entries ← okOr (.capacity "issuer index overflow")
    (Accounting.checkedAdd limits.issuers limits.receipts)
  refuse (entries.toNat < issuers.keys.card) (.capacity "issuer entries")
  Fallible.all checkIssuer issuers.entries

end Kinewright.Bundle
