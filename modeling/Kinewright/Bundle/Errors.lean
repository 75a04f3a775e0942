import Kinewright.Orchestration.Commit

/-!
# Identities, limits and errors of a project bundle

`bundle_records.rs`, `storage_budget.rs`: what the records of a bundle are named by, how much a bundle may
hold, and how an operation on it may be refused.
-/

namespace Kinewright.Bundle

open Fallible Json Accounting
open Orchestration (supported)

/-- `BundleError`. What an error of the system or of the core says is kept as its text. -/
inductive BundleError
  | coreMutationRefused (reason : String)
  | io (error : String)
  | identity (text : String)
  | contention (text : String)
  | durabilityUnsupported
  | durabilityUnknown
  | historyChanged
  | saveInProgress
  | historyBarrierInvariant
  | historyCommitInvariant
  | cleanupPending (text : String)
  | capacity (text : String)
  | unsupported (text : String)
  | corrupt (text : String)
  | unsettled
deriving DecidableEq

/-- `StorageLimits`, of which only the limits on the records are kept, and which are only admitted within
their ceilings. -/
structure StorageLimits where
  controlBytes : UInt64
  pendingCommands : UInt64
  commandBytes : UInt64
  versions : UInt64
  objects : UInt64
  graphDepth : UInt64
  decodedRecordBytes : UInt64
  comments : UInt64
  commentTextBytes : UInt64
  commentPoints : UInt64
  voiceBytes : UInt64
  receipts : UInt64
  issuers : UInt64
deriving DecidableEq

namespace StorageLimits

/-- `StorageLimits::default`. -/
def default : StorageLimits where
  controlBytes := 64 * 1024 * 1024
  pendingCommands := 64
  commandBytes := 256 * 1024
  versions := 100
  objects := 10000
  graphDepth := 32
  decodedRecordBytes := 64 * 1024 * 1024
  comments := 2000
  commentTextBytes := 16 * 1024
  commentPoints := 512
  voiceBytes := 256 * 1024 * 1024
  receipts := 4096
  issuers := 128

/-- `StorageLimits::validate`. -/
def validate (limits : StorageLimits) : Except BundleError Unit :=
  refuse (default.controlBytes < limits.controlBytes ∨ default.pendingCommands < limits.pendingCommands ∨
    default.commandBytes < limits.commandBytes ∨ default.versions < limits.versions ∨
    default.objects < limits.objects ∨ default.graphDepth < limits.graphDepth ∨
    default.decodedRecordBytes < limits.decodedRecordBytes ∨ default.comments < limits.comments ∨
    default.commentTextBytes < limits.commentTextBytes ∨
    default.commentPoints < limits.commentPoints ∨ default.voiceBytes < limits.voiceBytes ∨
    default.receipts < limits.receipts ∨ default.issuers < limits.issuers)
    (.unsupported "provisional storage limit expansion is not admitted")

end StorageLimits

/-- `hex`: so many digits in lower case. -/
def isHex (value : String) (length : ℕ) : Bool := decide (value.utf8ByteSize = length) && (utf8 value).all isLowerHex

/-- How a record kind is printed. Only the kinds that are not supported are. -/
def printed : RecordKind → String
  | .creationBrief => "CreationBrief"
  | .claimIndex => "ClaimIndex"
  | .takeMap => "TakeMap"
  | .takeEvidence => "TakeEvidence"
  | .code => "Code"
  | .external => "External"
  | .personMatte => "PersonMatte"
  | _ => ""

/-- `ObjectRef::validate`. -/
def validateRef (reference : ObjectRef) : Except BundleError Unit := do
  refuse (isHex reference.sha256 64 = false) (.corrupt "invalid SHA-256 identity")
  refuse (supported reference.recordKind = false) (.unsupported ("record kind " ++ printed reference.recordKind))

/-- `kind`: a reference to a record of the kind. -/
def checkKind (expected : RecordKind) (reference : ObjectRef) : Except BundleError Unit := do
  validateRef reference
  refuse (reference.recordKind ≠ expected) (.corrupt "Studio reference kind")

/-- `schema`. -/
def schema (version : ℕ) : Except BundleError Unit := refuse (version ≠ 1) (.unsupported "Studio record schema")

/-- `bounded`, of which only the limit is left. -/
def bounded (bytes : ℕ) (limit : UInt64) : Except BundleError Unit :=
  refuse (limit.toNat < bytes) (.capacity "Studio payload bytes")

end Kinewright.Bundle
