import Kinewright.Lib.Fallible
import Kinewright.Lib.Json

/-!
# Accounting records

`orchestration_accounting.rs`: what a run has spent, by task. A record names the one before it and
keeps a reference to every older one.
-/

namespace Kinewright.Accounting

open Fallible Json

abbrev SessionId := String
abbrev ProjectId := String

def runMillis : UInt64 := 6 * 60 * 60 * 1000
def taskSends : ℕ := 80
def maxTasks : ℕ := 128
def maxItems : ℕ := 256
def recordBytesLimit : ℕ := 64 * 1024 * 1024
def usageEvents : ℕ := 10000
def historyRecords : ℕ := 10000

inductive AccountingRefusal
  | capacity
  | invalid
  | scope
  | clockUncertain
  | time
  | sends
  | tokens
  | usageUnavailable
  | replan
  | publicationUnknown
deriving DecidableEq

/-! ## Object references -/

inductive RecordKind
  | document
  | history
  | branchCheckpoint
  | branchIndex
  | rootCheckpoint
  | specialistBase
  | historyFloor
  | recoveryClose
  | lineage
  | storeManifest
  | inputManifest
  | inputChunkTable
  | ownedMedia
  | ownedFont
  | ownedNotice
  | ownedLut
  | ownedScript
  | ownedData
  | ownedStyle
  | ownedReference
  | ownedEvidence
  | receiptIndex
  | issuerState
  | creationBrief
  | versionIndex
  | feedbackIndex
  | feedbackRevision
  | feedbackBatch
  | runIndex
  | runSnapshot
  | runEventSegment
  | runEffect
  | runRequest
  | runDelivery
  | runResult
  | runUsage
  | claimIndex
  | takeMap
  | takeEvidence
  | code
  | external
  | personMatte
deriving DecidableEq

structure ObjectRef where
  sha256 : String
  byteLength : UInt64
  recordKind : RecordKind
deriving DecidableEq

structure CommandId where
  issuer : String
  sequence : UInt64
deriving DecidableEq

/-- A byte between `0` and `9` or `a` and `f`. -/
def isLowerHex (b : UInt8) : Bool := (48 ≤ b && b ≤ 57) || (97 ≤ b && b ≤ 102)

/-- `u8::is_ascii_hexdigit`. -/
def isAsciiHexdigit (b : UInt8) : Bool := isLowerHex b || (65 ≤ b && b ≤ 70)

/-- The check of a reference: a digest and a length. -/
def reference (reference : ObjectRef) : Except AccountingRefusal Unit :=
  refuse (reference.byteLength = 0 ∨ reference.sha256.utf8ByteSize ≠ 64 ∨
    (utf8 reference.sha256).all isLowerHex = false) .invalid

/-! ## Records -/

structure ProviderSelection where
  connector : String
  model : String
  options : List (String × String)
deriving DecidableEq

structure ProviderMetadata where
  attempt : SessionId
  requested : ProviderSelection
  resolved : ProviderSelection
  cliVersion : String
deriving DecidableEq

/-- Values retain known partial totals. Completeness is tracked separately. -/
structure UsageValues where
  input : Option UInt64
  output : Option UInt64
  cacheRead : Option UInt64
  cacheWrite : Option UInt64
  reasoning : Option UInt64
  costMicros : Option UInt64
deriving DecidableEq

inductive UsageMode
  | incremental
  | cumulative
deriving DecidableEq

structure UsageSample where
  attempt : SessionId
  turn : UInt64
  event : String
  ordinal : UInt64
  mode : UsageMode
  values : UsageValues
  complete : Bool
  inputIncludesCache : Bool
  outputIncludesReasoning : Bool
deriving DecidableEq

structure UsageTotals where
  known : UsageValues
  complete : List Bool
  tokenLowerBound : UInt64
  tokensComplete : Bool
deriving DecidableEq

/-- `UsageTotals::default`. -/
def UsageTotals.default : UsageTotals where
  known := ⟨none, none, none, none, none, none⟩
  complete := [false, false, false, false, false, false]
  tokenLowerBound := 0
  tokensComplete := false

structure SendConsumption where
  command : CommandId
  attempt : SessionId
  turn : UInt64
  payload : ObjectRef
deriving DecidableEq

structure RepairCount where
  delivery : SessionId
  attempt : SessionId
  rounds : UInt8
  lastFailure : String
  repeated : UInt8
deriving DecidableEq

structure TaskAccounting where
  task : SessionId
  tokenLimit : Option UInt64
  sends : List SendConsumption
  providers : List ProviderMetadata
  usage : List UsageSample
  totals : UsageTotals
  repairs : List RepairCount
  lastFailure : Option String
  repeatedFailures : UInt8
  waitReason : Option String
  pause : Option AccountingRefusal
deriving DecidableEq

structure AccountingRecord where
  version : UInt32
  project : ProjectId
  run : SessionId
  previous : Option ObjectRef
  history : List ObjectRef
  revision : UInt64
  startUnixMs : UInt64
  deadlineUnixMs : UInt64
  lastUnixMs : UInt64
  elapsedMs : UInt64
  clockUncertain : Bool
  durableEventBytes : UInt64
  tasks : List TaskAccounting
deriving DecidableEq

/-- Exact predecessor bytes can be reconstructed without following its old edges. -/
structure AccountingArchive where
  version : UInt32
  original : ObjectRef
  record : AccountingRecord
deriving DecidableEq

/-! ## Serializers -/

instance : Serialize AccountingRefusal where
  toValue
    | .capacity => .string "capacity"
    | .invalid => .string "invalid"
    | .scope => .string "scope"
    | .clockUncertain => .string "clock_uncertain"
    | .time => .string "time"
    | .sends => .string "sends"
    | .tokens => .string "tokens"
    | .usageUnavailable => .string "usage_unavailable"
    | .replan => .string "replan"
    | .publicationUnknown => .string "publication_unknown"

/-- The name of a kind on the wire. -/
def RecordKind.wire : RecordKind → String
  | .document => "document"
  | .history => "history"
  | .branchCheckpoint => "branch_checkpoint"
  | .branchIndex => "branch_index"
  | .rootCheckpoint => "root_checkpoint"
  | .specialistBase => "specialist_base"
  | .historyFloor => "history_floor"
  | .recoveryClose => "recovery_close"
  | .lineage => "lineage"
  | .storeManifest => "store_manifest"
  | .inputManifest => "input_manifest"
  | .inputChunkTable => "input_chunk_table"
  | .ownedMedia => "owned_media"
  | .ownedFont => "owned_font"
  | .ownedNotice => "owned_notice"
  | .ownedLut => "owned_lut"
  | .ownedScript => "owned_script"
  | .ownedData => "owned_data"
  | .ownedStyle => "owned_style"
  | .ownedReference => "owned_reference"
  | .ownedEvidence => "owned_evidence"
  | .receiptIndex => "receipt_index"
  | .issuerState => "issuer_state"
  | .creationBrief => "creation_brief"
  | .versionIndex => "version_index"
  | .feedbackIndex => "feedback_index"
  | .feedbackRevision => "feedback_revision"
  | .feedbackBatch => "feedback_batch"
  | .runIndex => "run_index"
  | .runSnapshot => "run_snapshot"
  | .runEventSegment => "run_event_segment"
  | .runEffect => "run_effect"
  | .runRequest => "run_request"
  | .runDelivery => "run_delivery"
  | .runResult => "run_result"
  | .runUsage => "run_usage"
  | .claimIndex => "claim_index"
  | .takeMap => "take_map"
  | .takeEvidence => "take_evidence"
  | .code => "code"
  | .external => "external"
  | .personMatte => "person_matte"

instance : Serialize RecordKind := ⟨fun kind => .string kind.wire⟩

instance : Serialize ObjectRef where
  toValue r := record [("sha256", field r.sha256), ("byte_length", field r.byteLength),
    ("record_kind", field r.recordKind)]

instance : Serialize CommandId where
  toValue r := record [("issuer", field r.issuer), ("sequence", field r.sequence)]

instance : Serialize ProviderSelection where
  toValue r := record [("connector", field r.connector), ("model", field r.model), ("options", field r.options)]

instance : Serialize ProviderMetadata where
  toValue r := record [("attempt", field r.attempt), ("requested", field r.requested),
    ("resolved", field r.resolved), ("cli_version", field r.cliVersion)]

instance : Serialize UsageValues where
  toValue r := record [("input", field r.input), ("output", field r.output),
    ("cache_read", field r.cacheRead), ("cache_write", field r.cacheWrite),
    ("reasoning", field r.reasoning), ("cost_micros", field r.costMicros)]

instance : Serialize UsageMode where
  toValue
    | .incremental => .string "incremental"
    | .cumulative => .string "cumulative"

instance : Serialize UsageSample where
  toValue r := record [("attempt", field r.attempt), ("turn", field r.turn),
    ("event", field r.event), ("ordinal", field r.ordinal), ("mode", field r.mode),
    ("values", field r.values), ("complete", field r.complete),
    ("input_includes_cache", field r.inputIncludesCache),
    ("output_includes_reasoning", field r.outputIncludesReasoning)]

instance : Serialize UsageTotals where
  toValue r := record [("known", field r.known), ("complete", field r.complete),
    ("token_lower_bound", field r.tokenLowerBound), ("tokens_complete", field r.tokensComplete)]

instance : Serialize SendConsumption where
  toValue r := record [("command", field r.command), ("attempt", field r.attempt),
    ("turn", field r.turn), ("payload", field r.payload)]

instance : Serialize RepairCount where
  toValue r := record [("delivery", field r.delivery), ("attempt", field r.attempt),
    ("rounds", field r.rounds), ("last_failure", field r.lastFailure),
    ("repeated", field r.repeated)]

instance : Serialize TaskAccounting where
  toValue r := record [("task", field r.task), ("token_limit", field r.tokenLimit),
    ("sends", field r.sends), ("providers", field r.providers), ("usage", field r.usage),
    ("totals", field r.totals), ("repairs", field r.repairs),
    ("last_failure", field r.lastFailure), ("repeated_failures", field r.repeatedFailures),
    ("wait_reason", field r.waitReason), ("pause", field r.pause)]

instance : Serialize AccountingRecord where
  toValue r := record [("version", field r.version), ("project", field r.project),
    ("run", field r.run), ("previous", field r.previous), ("history", field r.history),
    ("revision", field r.revision), ("start_unix_ms", field r.startUnixMs),
    ("deadline_unix_ms", field r.deadlineUnixMs), ("last_unix_ms", field r.lastUnixMs),
    ("elapsed_ms", field r.elapsedMs), ("clock_uncertain", field r.clockUncertain),
    ("durable_event_bytes", field r.durableEventBytes), ("tasks", field r.tasks)]

instance : Serialize AccountingArchive where
  toValue r := record [("version", field r.version), ("original", field r.original), ("record", field r.record)]

/-- A bounded encoder. -/
def encode {α : Type} [Serialize α] (value : α) (limit : ℕ) : Except AccountingRefusal (List UInt8) :=
  if (toValue value).bytes.length ≤ limit then .ok (toValue value).bytes else .error .capacity

end Kinewright.Accounting
