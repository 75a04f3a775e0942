import Kinewright.Bundle.Receipts

/-!
# A project bundle and its publisher

`bundle.rs`, `bundle_commit.rs`: a bundle is held in memory by its one owner, and a publication replaces
its root on disk. What the histories, the store and the file system decide is given to an operation from
outside, so that it may be anything.
-/

namespace Kinewright.Bundle

open Fallible Studio
open Accounting (RecordKind ObjectRef CommandId)
open Orchestration (ProjectId BranchId HeadId)

/-! ## Bundles -/

/-- `StudioRoot`, of which the references to the indexes are kept. -/
structure StudioRoot where
  manualSwitchGeneration : ℕ
  versionIndexRef : Option ObjectRef
  feedbackIndexRef : Option ObjectRef
  runIndexRef : Option ObjectRef
deriving DecidableEq

/-- `ValidatedMetadataUpdate`, without the seals. -/
structure ValidatedMetadataUpdate where
  versions : Option ObjectRef
  feedback : Option ObjectRef
  runs : Option ObjectRef
deriving DecidableEq

/-- `ValidatedMetadataUpdate::apply`. -/
def ValidatedMetadataUpdate.apply (update : ValidatedMetadataUpdate) (root : StudioRoot) :
    StudioRoot where
  manualSwitchGeneration := root.manualSwitchGeneration
  versionIndexRef := update.versions.or root.versionIndexRef
  feedbackIndexRef := update.feedback.or root.feedbackIndexRef
  runIndexRef := update.runs.or root.runIndexRef

/-- What a root says of the bundle, and what is loaded when it is read. Of the roots before it only their
ledgers are kept. -/
structure Published where
  generation : ℕ
  branches : KeyedMap BranchId BranchCheckpoint
  root : Option StudioRoot
  receipts : ReceiptLedger
  issuers : Issuers
  predecessors : List ReceiptLedger
deriving DecidableEq

/-- `ProjectBundle`, and the root that is on disk. -/
structure ProjectBundle where
  projectId : ProjectId
  originProjectIds : List ProjectId
  manualBranchId : BranchId
  ownerEpoch : UInt64
  limits : StorageLimits
  held : Published
  unsettled : Bool
  pendingCommand : Option CommandEnvelope
  pendingResult : Option ReceiptResult
  pendingMetadata : Option ValidatedMetadataUpdate
  disk : Option Published

namespace ProjectBundle

variable (b : ProjectBundle)

/-- A bundle that is activated where there is none yet. -/
def activate (projectId : ProjectId) (manualBranchId : BranchId) (ownerEpoch : UInt64)
    (limits : StorageLimits) : ProjectBundle where
  projectId := projectId
  originProjectIds := []
  manualBranchId := manualBranchId
  ownerEpoch := ownerEpoch
  limits := limits
  held := ⟨0, .empty, none, .empty, .empty, []⟩
  unsettled := false
  pendingCommand := none
  pendingResult := none
  pendingMetadata := none
  disk := none

def issuer? (id : IssuerId) : Option IssuerState := b.held.issuers.get? id

/-- The bundle with another table of issuers. -/
def withIssuers (issuers : Issuers) : ProjectBundle := { b with held := { b.held with issuers := issuers } }

/-- The bundle with another state of an issuer. -/
def setIssuer (id : IssuerId) (state : IssuerState) : ProjectBundle := b.withIssuers (b.held.issuers.insert id state)

/-- `ProjectBundle::checkpoint`. -/
def checkpoint (branch : BranchId) : Except BundleError BranchCheckpoint :=
  okOr (.unsupported "unknown branch") (b.held.branches.get? branch)

/-- `ProjectBundle::manual_head`. -/
def manualHead : Option HeadId := (b.held.branches.get? b.manualBranchId).map BranchCheckpoint.headId

/-- Nothing is in flight. -/
def isIdle : Bool := !b.unsettled && b.pendingCommand.isNone

end ProjectBundle

/-! ## Lookup -/

/-- What the ledgers of earlier roots say of a command, newest first. Of a live issuer they say that it is
committed, of another that it is retired. -/
def lookupPredecessors (issuer : Option IssuerState) (id : CommandId) (digest : CommandDigest) :
    List ReceiptLedger → ReceiptLookup
  | [] => .absent
  | ledger :: ledgers => match ledger.lookup id digest with
      | .absent => lookupPredecessors issuer id digest ledgers
      | .committed receipt => if issuer.all IssuerState.retired then .retired receipt else .committed receipt
      | other => other

/-- What the table of issuers says of a command that no ledger knows. -/
def lookupIssuer (issuer : Option IssuerState) (id : CommandId) : ReceiptLookup :=
  match issuer with
  | some state =>
    if state.retired = false ∧ state.nextSequence ≤ id.sequence then .absent
    else .retiredUnresolved
  | none => .retiredUnresolved

variable (enc : Encoding)

/-- `ProjectBundle::receipt_lookup`. Reading the earlier roots may fail, and none of them is a rescue. -/
def ProjectBundle.receiptLookup (b : ProjectBundle) (reads : Except BundleError Unit)
    (envelope : CommandEnvelope) : Except BundleError ReceiptLookup := do
  let digest ← envelope.digest enc
  match b.pendingCommand.filter fun pending => pending.id = envelope.id with
  | some pending =>
    let held ← pending.digest enc
    return if held = digest then .pending else .idPayloadConflict
  | none =>
    match b.held.receipts.lookup envelope.id digest with
    | .absent =>
      reads
      match lookupPredecessors (b.issuer? envelope.id.issuer) envelope.id digest
          b.held.predecessors with
      | .absent => return lookupIssuer (b.issuer? envelope.id.issuer) envelope.id
      | found => return found
    | found => return found

/-! ## Publication -/

/-- What the staging of a branch gives: its checkpoint, and the reference that it is sealed under. -/
structure Cut where
  checkpoint : BranchCheckpoint
  reference : ObjectRef

/-- How the replacement of the root ends. -/
inductive Ending
  | committed
  | refused (error : BundleError)
  | unknown (landed : Bool)

/-- What happens to a publication outside of the ledgers: a check of the histories, of the store or of the
name refuses it, or it is staged and comes to an end. -/
abbrev Attempt := Except BundleError (Cut × Ending)

namespace ProjectBundle

variable (b : ProjectBundle)

/-- The result that the receipt of the pending command has. -/
def result (envelope : CommandEnvelope) (cut : Cut) : ReceiptResult :=
  b.pendingResult.getD (.edit cut.reference
    ((envelope.manual.map ManualHistoryIdentity.batchId).or cut.checkpoint.batchIds.getLast?))

/-- The ledger with the receipt of the pending command. -/
def stageReceipts (cut : Cut) (generation : ℕ) : Except BundleError ReceiptLedger :=
  match b.pendingCommand with
  | none => .ok b.held.receipts
  | some envelope => do
    let result := b.result envelope cut
    let comments ← if result.isComment
      then okOr (.capacity "comment count") (checkedNext b.held.receipts.comments)
      else .ok b.held.receipts.comments
    let digest ← envelope.digest enc
    let receipt : CommandReceipt := {
      recoveryOrigin := envelope.manual.bind ManualHistoryIdentity.recoveryOrigin
      id := envelope.id
      digest := digest
      projectId := b.projectId
      targetBranch := envelope.targetBranch
      originalEpoch := envelope.ownerEpoch
      expectedHead := envelope.expectedHead
      headId := cut.checkpoint.headId
      generation := generation
      result := result }
    return { b.held.receipts with
      detailed := b.held.receipts.detailed ++ [receipt]
      comments := comments }

/-- The root with the pending change of metadata. -/
def stageMetadata : Except BundleError (Option StudioRoot) :=
  match b.pendingMetadata with
  | none => .ok b.held.root
  | some update => do
    let root ← okOr .unsettled b.held.root
    return some (update.apply root)

/-- The check of the issuers, which are only sealed when there is an issuer or a receipt. -/
def checkIssuers (receipts : ReceiptLedger) : Except BundleError Unit :=
  if b.held.issuers.keys = ∅ ∧ receipts = .empty then .ok ()
  else b.held.issuers.validate b.limits

/-- What the next root is going to say. -/
def stage (cut : Cut) : Except BundleError Published := do
  let generation ← okOr (.capacity "root generation")
    (if b.held.generation + 1 < 2 ^ 64 then some (b.held.generation + 1) else none)
  let receipts ← b.stageReceipts enc cut generation
  receipts.validate b.limits
  b.checkIssuers receipts
  let root ← b.stageMetadata
  return {
    generation := generation
    branches := b.held.branches.insert b.manualBranchId cut.checkpoint
    root := some (root.getD ⟨0, none, none, none⟩)
    receipts := receipts
    issuers := b.held.issuers
    predecessors := match b.disk with
      | none => b.held.predecessors
      | some published => (published.receipts :: b.held.predecessors).take 2 }

/-- The bundle with the next root, in memory and on disk. -/
def lands (next : Published) : ProjectBundle := { b with held := next, disk := some next }

/-- The bundle when it is not known which root is on disk. -/
def doubts (next : Published) (landed : Bool) : ProjectBundle :=
  { b with unsettled := true, disk := if landed then some next else b.disk }

/-- `BundleCommit::publish_branch_impl`, of a cut of the manual branch. -/
def publish (attempt : Attempt) : ProjectBundle × Except BundleError Unit :=
  if b.unsettled then (b, .error .unsettled)
  else match attempt with
    | .error error => (b, .error error)
    | .ok (cut, ending) => match b.stage enc cut with
      | .error error => (b, .error error)
      | .ok next => match ending with
        | .committed => (b.lands next, .ok ())
        | .refused error => (b, .error error)
        | .unknown landed => (b.doubts next landed, .error .durabilityUnknown)

/-- `ProjectBundle::reconcile_destination`. It may fail to read the root, and then has to be tried again. -/
def reconcileDestination (reads : Except BundleError Unit) : ProjectBundle × Except BundleError Unit :=
  match reads with
  | .error error => ({ b with unsettled := true }, .error error)
  | .ok () => match b.disk with
    | some published => ({ b with held := published, unsettled := false }, .ok ())
    | none =>
      if b.held.root ≠ none
      then ({ b with unsettled := true }, .error (.corrupt "missing reconciliation root"))
      else ({ b with unsettled := false }, .ok ())

/-- `ProjectBundle::reconcile_command`, and `reconcile_metadata`. -/
def reconcileCommand (reads : Except BundleError Unit) : ProjectBundle × Except BundleError Unit :=
  match b.reconcileDestination reads with
  | (b, .ok ()) =>
    ({ b with pendingCommand := none, pendingResult := none, pendingMetadata := none }, .ok ())
  | (b, .error error) => (b, .error error)

end ProjectBundle

end Kinewright.Bundle
