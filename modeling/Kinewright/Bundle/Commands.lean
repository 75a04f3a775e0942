import Kinewright.Studio.Metadata

/-!
# Commands of a bundle

`receipts.rs`, `bundle_commit.rs`, `studio_store.rs`: an issuer is made, acknowledged and retired, and a
command of an issuer is committed with its receipt. Every one of these changes the bundle in memory, has it
published, and takes the change back when the publication is refused.
-/

namespace Kinewright.Bundle

open Fallible Studio
open Accounting (RecordKind ObjectRef CommandId)
open Orchestration (ProjectId BranchId HeadId)

/-- What a call leaves and answers. It is attempted when it goes as far as the publisher. -/
structure Done (α : Type) where
  bundle : ProjectBundle
  attempted : Bool
  result : Except BundleError α

namespace Done

variable {α : Type}

/-- The call is refused before it changes anything. -/
def refused (b : ProjectBundle) (error : BundleError) : Done α := ⟨b, false, .error error⟩

/-- The call, with another answer. -/
def map {β : Type} (f : α → β) (done : Done α) : Done β := ⟨done.bundle, done.attempted, done.result.map f⟩

/-- The call goes on with what its checks give, or is refused by them. -/
def check {β : Type} (b : ProjectBundle) (checks : Except BundleError β) (go : β → Done α) : Done α :=
  match checks with
  | .error error => refused b error
  | .ok value => go value

end Done

variable (enc : Encoding)

namespace ProjectBundle

variable (b : ProjectBundle)

/-! ## Saving -/

/-- What happens to a save outside of the ledgers. -/
structure SaveHost where
  /-- The core is live, and nothing of an earlier save is in its way. -/
  ready : Except BundleError Unit
  reads : Except BundleError Unit
  /-- A history is selected, and its floor is barred. -/
  selected : Except BundleError Unit
  attempt : Attempt
  /-- The floor is committed with the root. -/
  settled : Except BundleError Unit
  /-- After a refusal the namespace or an object is left uncertain. -/
  uncertain : Bool

/-- `ProjectBundle::publish_pending`. -/
def publishPending (host : SaveHost) : Done Unit :=
  match b.publish enc host.attempt with
  | (b, .ok ()) => match host.settled with
    | .ok () => ⟨b, true, .ok ()⟩
    | .error error => ⟨{ b with unsettled := true }, true, .error error⟩
  | (b, .error error) => ⟨{ b with unsettled := b.unsettled || host.uncertain }, true, .error error⟩

/-- `ProjectBundle::save`. -/
def save (host : SaveHost) : Done Unit :=
  Done.check b host.ready fun _ =>
    match if b.unsettled then b.reconcileDestination host.reads else (b, .ok ()) with
    | (b, .error error) => .refused b error
    | (b, .ok ()) =>
      if b.pendingCommand.isSome then .refused b .unsettled
      else Done.check b host.selected fun _ => b.publishPending enc host

/-- A changed bundle is saved, or the change is taken back unless the bundle is left unsettled. -/
def saveOr {α : Type} (host : SaveHost) (answer : α) (takeBack : ProjectBundle → ProjectBundle) : Done α :=
  let saved := b.save enc host
  match saved.result with
  | .ok () => ⟨saved.bundle, saved.attempted, .ok answer⟩
  | .error error =>
    ⟨if saved.bundle.unsettled then saved.bundle else takeBack saved.bundle, saved.attempted, .error error⟩

/-! ## Issuers -/

/-- `ProjectBundle::issue_issuer`. -/
def issueIssuer (host : SaveHost) (fresh : Except BundleError IssuerId) (firstSequence : UInt64) : Done IssuerId :=
  if b.isIdle = false then .refused b .unsettled
  else if firstSequence = 0 ∨ b.limits.issuers.toNat ≤ b.held.issuers.active then
    .refused b (.capacity "issuer entries")
  else Done.check b fresh fun id =>
    (b.setIssuer id ⟨firstSequence, firstSequence - 1, false, none⟩).saveOr enc host id fun saved =>
      saved.withIssuers (saved.held.issuers.erase id)

/-- `ProjectBundle::acknowledge_issuer`. -/
def acknowledgeIssuer (host : SaveHost) (id : IssuerId) (through : UInt64) : Done Unit :=
  if b.isIdle = false then .refused b .unsettled
  else match b.issuer? id with
  | none => .refused b (.unsupported "unknown issuer")
  | some old =>
    if through < old.reconciledHighWater ∨ old.nextSequence ≤ through then
      .refused b (.unsupported "invalid reconciled high water")
    else
      (b.setIssuer id { old with reconciledHighWater := through }).saveOr enc host () fun saved =>
        saved.setIssuer id old

/-- The ledger without the details of a retired issuer, or without its receipts at all. -/
def retireReceipts (ledger : ReceiptLedger) (id : IssuerId) (forget : Bool) : ReceiptLedger :=
  let retired := ledger.retired ++ ledger.detailed.filter fun receipt => receipt.id.issuer = id
  { detailed := ledger.detailed.filter fun receipt => receipt.id.issuer ≠ id
    retired := if forget then retired.filter fun receipt => receipt.id.issuer ≠ id else retired
    comments := ledger.comments }

/-- The table with a retired issuer, which is left out if no receipt of it is kept. -/
def retireState (issuers : Issuers) (ledger : ReceiptLedger) (id : IssuerId) (old : IssuerState) :
    Issuers :=
  if ∃ receipt ∈ ledger.all, receipt.id.issuer = id then issuers.insert id { old with retired := true }
  else issuers.erase id

/-- `ProjectBundle::retire_issuer`. -/
def retireIssuer (host : SaveHost) (id : IssuerId) (forget : Bool) : Done Unit :=
  if b.isIdle = false then .refused b .unsettled
  else match b.issuer? id with
  | none => .refused b (.unsupported "unknown issuer")
  | some old =>
    if old.isReconciled = false then .refused b (.capacity "unresolved issuer evidence")
    else
      let receipts := retireReceipts b.held.receipts id forget
      let retired : ProjectBundle := { b with held := { b.held with
        receipts := receipts
        issuers := retireState b.held.issuers receipts id old } }
      retired.saveOr enc host () fun saved =>
        { saved with held := { saved.held with
          receipts := b.held.receipts
          issuers := saved.held.issuers.insert id old } }

/-! ## Commands -/

/-- What happens to a command outside of the ledgers. -/
structure CommandHost where
  /-- The core is live, and no save of it is in the way. -/
  ready : Except BundleError Unit
  reads : Except BundleError Unit
  /-- The revision that the core is at. -/
  revision : Except BundleError UInt64
  /-- The manifest extends the one of the checkpoint. -/
  manifest : Except BundleError Unit
  /-- The history is the acknowledged one, and the command applies to it. -/
  staged : Except BundleError Unit
  /-- The record of a comment, and the reference that it is sealed under. -/
  comment : Except BundleError (String × ObjectRef)
  attempt : Attempt
  /-- The checkpoint is installed in the core. -/
  installed : Except BundleError Unit

/-- There is room for one more receipt. -/
def hasRoom : Bool :=
  decide (b.limits.pendingCommands ≠ 0) &&
    decide (b.held.receipts.detailed.length + b.held.receipts.retired.length < b.limits.receipts.toNat)

/-- `stage_comment`. -/
def stageComment (host : CommandHost) (envelope : CommandEnvelope) : Except BundleError ReceiptResult := do
  let text ← okOr (.unsupported "missing comment text") envelope.commentText
  let strokes ← okOr (.unsupported "missing comment strokes") envelope.commentStrokes
  refuse (b.limits.comments ≤ b.held.receipts.comments ∨
    b.limits.commentTextBytes < text.byteLength ∨ b.limits.commandBytes < strokes.byteLength)
    (.capacity "comment bytes/count")
  refuse (∃ reference ∈ text :: strokes :: envelope.evidence,
    reference.recordKind ≠ .ownedEvidence) (.unsupported "comment evidence kind")
  let record ← host.comment
  return .comment record.1 record.2 text strokes envelope.evidence

/-- The result of a command that is known before it is published: that of a comment. -/
def commandResult (host : CommandHost) (envelope : CommandEnvelope) : Except BundleError (Option ReceiptResult) :=
  if envelope.action = "comment" then some <$> b.stageComment host envelope
  else .ok b.pendingResult

/-- The checks of a command that no receipt answers, up to its staging. They give the issuer, its next
sequence, and the result that is already known. -/
def commandChecks (host : CommandHost) (envelope : CommandEnvelope) :
    Except BundleError (IssuerState × UInt64 × Option ReceiptResult) := do
  let checkpoint ← b.checkpoint b.manualBranchId
  refuse (b.isIdle = false) .unsettled
  refuse (envelope.projectId ≠ b.projectId ∨ envelope.targetBranch ≠ b.manualBranchId ∨
    envelope.ownerEpoch ≠ b.ownerEpoch ∨ envelope.lease ≠ none ∨
    envelope.expectedHead ≠ some checkpoint.headId) (.unsupported "stale command authority/head")
  let revision ← host.revision
  refuse (revision ≠ envelope.expectedRevision) (.unsupported "stale runtime binding")
  let issuer ← okOr (.unsupported "unknown issuer") (b.issuer? envelope.id.issuer)
  refuse (issuer.retired = true ∨ issuer.nextSequence ≠ envelope.id.sequence)
    (.unsupported "issuer sequence/retirement")
  let next ← okOr (.capacity "issuer sequence overflow") (checkedNext envelope.id.sequence)
  refuse (b.hasRoom = false) (.capacity "pending command/receipt entries")
  let encoded ← envelope.encodedBytes enc
  refuse (b.limits.commandBytes.toNat < encoded) (.capacity "command bytes")
  host.staged
  let result ← b.commandResult host envelope
  return (issuer, next, result)

/-- The bundle with a command in flight. -/
def hold (envelope : CommandEnvelope) (result : Option ReceiptResult)
    (metadata : Option ValidatedMetadataUpdate) : ProjectBundle :=
  { b with pendingCommand := some envelope, pendingResult := result, pendingMetadata := metadata }

/-- The bundle with nothing in flight. -/
def release : ProjectBundle := { b with pendingCommand := none, pendingResult := none, pendingMetadata := none }

/-- `BundleCommit::command`, of a checked command: it is published, and then answered from its receipt. -/
def commitCommand (host : CommandHost) (envelope : CommandEnvelope) (issuer : IssuerState)
    (next : UInt64) (result : Option ReceiptResult) : Done ReceiptLookup :=
  let staged := (b.hold envelope result b.pendingMetadata).setIssuer envelope.id.issuer
    { issuer with nextSequence := next }
  match staged.publish enc host.attempt with
  | (b, .error error) =>
    let b := if error ≠ .durabilityUnknown ∧ error ≠ .unsettled
      then b.setIssuer envelope.id.issuer issuer else b
    ⟨{ b with unsettled := true }, true, .error error⟩
  | (b, .ok ()) =>
    let b : ProjectBundle := { b with pendingCommand := none, pendingResult := none }
    match host.installed with
    | .error error => ⟨{ b with unsettled := true }, true, .error error⟩
    | .ok () => ⟨b, true, b.receiptLookup enc host.reads envelope⟩

/-- `BundleCommit::command`. -/
def command (host : CommandHost) (envelope : CommandEnvelope) : Done ReceiptLookup :=
  if envelope.action = "metadata" then
    .refused b (.unsupported "metadata requires typed owner ingress")
  else Done.check b host.ready fun _ =>
    Done.check b (b.receiptLookup enc host.reads envelope) fun lookup =>
      if lookup ≠ .absent then ⟨b, false, .ok lookup⟩
      else Done.check b (b.commandChecks enc host envelope) fun (issuer, next, result) =>
        b.commitCommand enc host envelope issuer next result

/-- The checks of an admitted manual command that no receipt answers. They give the issuer. -/
def admittedChecks (host : CommandHost) (envelope : CommandEnvelope) (inputs : ObjectRef) :
    Except BundleError IssuerState := do
  let manual ← okOr .historyBarrierInvariant envelope.manual
  refuse (manual.recoveryOrigin ≠ none) .historyChanged
  refuse (b.isIdle = false) .unsettled
  let checkpoint ← b.checkpoint b.manualBranchId
  let binding := manual.binding
  refuse (envelope.action ≠ "manual" ∨ envelope.projectId ≠ b.projectId ∨
    envelope.targetBranch ≠ b.manualBranchId ∨ envelope.ownerEpoch ≠ b.ownerEpoch ∨
    envelope.lease ≠ some binding.token ∨ envelope.expectedHead ≠ some binding.anchorHead ∨
    envelope.id.issuer ≠ binding.issuer ∨
    b.held.root.map StudioRoot.manualSwitchGeneration ≠ some binding.switchGeneration ∨
    inputs ≠ binding.inputs ∨ checkpoint.batchIds.getLast? ≠ manual.predecessor ∨
    checkpoint.historyRef.sha256 ≠ manual.beforeSha256)
    (.unsupported "manual chain authority/predecessor")
  host.manifest
  let issuer ← okOr .historyChanged (b.issuer? envelope.id.issuer)
  refuse (issuer.retired = true ∨ issuer.nextSequence ≠ envelope.id.sequence) .historyChanged
  refuse (b.hasRoom = false) (.capacity "manual receipt entries")
  let encoded ← envelope.encodedBytes enc
  refuse (b.limits.commandBytes.toNat < encoded) (.capacity "manual command bytes")
  host.staged
  return issuer

/-- `BundleCommit::admitted_history`, of a checked command. -/
def commitAdmitted (host : CommandHost) (envelope : CommandEnvelope) (issuer : IssuerState) : Done ReceiptLookup :=
  let held := b.hold envelope b.pendingResult b.pendingMetadata
  -- the next sequence is only computed now, when the command is already in flight
  match checkedNext issuer.nextSequence with
  | none => ⟨held, false, .error (.capacity "manual sequence")⟩
  | some next =>
    match (held.setIssuer envelope.id.issuer
      { issuer with nextSequence := next }).publish enc host.attempt with
    | (b, .ok ()) =>
      let b := { b with pendingCommand := none }
      ⟨b, true, b.receiptLookup enc host.reads envelope⟩
    | (b, .error error) =>
      -- the publication is unknown, or it cannot have happened
      if b.unsettled then ⟨b, true, .error error⟩
      else ⟨{ b with pendingCommand := none }.setIssuer envelope.id.issuer issuer, true, .error error⟩

/-- `BundleCommit::admitted_history`. -/
def admittedHistory (host : CommandHost) (envelope : CommandEnvelope) (inputs : ObjectRef) : Done ReceiptLookup :=
  Done.check b (b.receiptLookup enc host.reads envelope) fun lookup =>
    if lookup ≠ .absent then ⟨b, false, .ok lookup⟩
    else Done.check b (b.admittedChecks enc host envelope inputs) fun issuer =>
      b.commitAdmitted enc host envelope issuer

/-! ## Metadata -/

/-- What happens to a metadata command outside of the ledgers. -/
structure MetadataHost where
  reads : Except BundleError Unit
  /-- The slot of a voice note is taken. -/
  slot : Except BundleError Unit
  reserved : Except BundleError Unit
  store : Host
  attempt : Attempt

/-- The checks of a metadata command that no receipt answers. They give its issuer and its change. -/
def metadataChecks (host : MetadataHost) (envelope : MetadataEnvelope) (update : MetadataUpdate) :
    Except BundleError (IssuerState × ValidatedMetadataUpdate × MetadataResult) := do
  refuse (b.isIdle = false ∨ b.pendingMetadata ≠ none) .unsettled
  refuse (update.expectedRootGeneration ≠ b.held.generation ∨
    envelope.targetBranch ≠ b.manualBranchId ∨ envelope.expectedHead ≠ b.manualHead ∨
    envelope.ownerEpoch ≠ b.ownerEpoch) .historyChanged
  let issuer ← okOr (.identity "metadata issuer sequence")
    ((b.issuer? envelope.id.issuer).filter fun issuer =>
      !issuer.retired && decide (issuer.nextSequence = envelope.id.sequence))
  refuse (b.hasRoom = false) (.capacity "metadata receipts/pending")
  host.reserved
  let change ← validateMetadata enc host.store b envelope update
  return (issuer, change)

/-- `BundleCommit::publish_maintenance`: the branch stays at its checkpoint. -/
def publishMaintenance (attempt : Attempt) : ProjectBundle × Except BundleError Unit :=
  match b.checkpoint b.manualBranchId with
  | .error error => (b, .error error)
  | .ok checkpoint =>
    b.publish enc (attempt.map fun (cut, ending) => ({ cut with checkpoint := checkpoint }, ending))

/-- `metadata_command_inner`, of a checked command. -/
def commitMetadata (host : MetadataHost) (command : CommandEnvelope) (issuer : IssuerState)
    (change : ValidatedMetadataUpdate × MetadataResult) : Done ReceiptLookup :=
  let held := b.hold command (some (.metadata change.2)) (some change.1)
  -- the next sequence is only computed now, when the command is already in flight
  match checkedNext command.id.sequence with
  | none => ⟨held, false, .error (.capacity "metadata sequence overflow")⟩
  | some next =>
    match (held.setIssuer command.id.issuer
      { issuer with nextSequence := next }).publishMaintenance enc host.attempt with
    | (b, .error error) =>
      if error ≠ .durabilityUnknown ∧ error ≠ .unsettled ∧ b.unsettled = false
      then ⟨(b.setIssuer command.id.issuer issuer).release, true, .error error⟩
      else ⟨b, true, .error error⟩
    | (b, .ok ()) => ⟨b.release, true, b.release.receiptLookup enc host.reads command⟩

/-- The slot that a voice note needs. -/
def MetadataHost.voiceSlot (host : MetadataHost) : MetadataChange → Except BundleError Unit
  | .saveVoice _ => host.slot
  | _ => .ok ()

/-- The checks of a metadata command before its receipt is looked up. -/
def metadataCommandOf (host : MetadataHost) (envelope : MetadataEnvelope) (scope : MetadataScope)
    (update : MetadataUpdate) : Except BundleError CommandEnvelope := do
  host.voiceSlot update.change
  refuse (scope.allows update.change = false ∨ envelope.projectId ≠ b.projectId) (.identity "metadata scope/project")
  bounded (enc.updateBytes update).toNat b.limits.commandBytes
  envelope.receiptEnvelope enc update

/-- `ProjectBundle::metadata_command`. -/
def metadataCommand (host : MetadataHost) (envelope : MetadataEnvelope) (scope : MetadataScope)
    (update : MetadataUpdate) : Done ReceiptLookup :=
  Done.check b (b.metadataCommandOf enc host envelope scope update) fun command =>
    Done.check b (b.receiptLookup enc host.reads command) fun lookup =>
      if lookup ≠ .absent then ⟨b, false, .ok lookup⟩
      else Done.check b (b.metadataChecks enc host envelope update) fun (issuer, change) =>
        b.commitMetadata enc host command issuer change

end ProjectBundle

end Kinewright.Bundle
