import Mathlib.Data.String.Basic
import Kinewright.Incidents.Code
import Kinewright.Core.History

/-!
# The incident log

`IncidentLog` of `incident.rs`: the incidents of a session, their deduplication and their suppression
set. Each writer touches one part of one incident under a guard on its state, and counts itself in the
generation, which tells the flusher whether there is anything to write.
-/

namespace Kinewright.Incidents

open Model Core

variable {Op : Type}

/-- `Duration`, in nanoseconds. -/
abbrev Duration := ℕ

abbrev IncidentId := ℕ

/-- `u64::saturating_add(1)`. -/
def saturatingSucc (n : ℕ) : ℕ := min (n + 1) (2 ^ 64 - 1)

/-! ## Incidents -/

inductive IncidentOutcome
  | applied | reverted | explained | rejected
deriving DecidableEq

/-- `IncidentState`; `opened` is its `Open`. -/
inductive IncidentState
  | opened
  | investigating
  | resolved (outcome : IncidentOutcome)
deriving DecidableEq

/-- Whether the incident is still outstanding. -/
def IncidentState.isOpen : IncidentState → Bool
  | .opened | .investigating => true
  | .resolved _ => false

/-- Who resolved an incident, or why the session that worked on it stopped. -/
inductive IncidentResolver
  | router
  | person
  | session (harness : String) (model : Option String) (stop : String)
deriving DecidableEq

structure IncidentTelemetry where
  resolvedAfter : Option Duration
  toolCalls : ℕ
  inputTokens : Option ℕ
  cachedInputTokens : Option ℕ
  cacheCreationInputTokens : Option ℕ
  outputTokens : Option ℕ
  reasoningOutputTokens : Option ℕ
  costUsdMillionths : Option ℤ
  turns : Option ℕ
  resolver : Option IncidentResolver
deriving DecidableEq

/-- `IncidentTelemetry::default`. -/
def IncidentTelemetry.default : IncidentTelemetry where
  resolvedAfter := none
  toolCalls := 0
  inputTokens := none
  cachedInputTokens := none
  cacheCreationInputTokens := none
  outputTokens := none
  reasoningOutputTokens := none
  costUsdMillionths := none
  turns := none
  resolver := none

/-- A fix that an investigator session proposes. -/
structure IncidentProposal (Op : Type) where
  operations : List Op
  operationCount : ℕ
  summary : String
  explanation : String
  baseRevision : TimelineRevision
  stale : Bool
deriving DecidableEq

structure Incident (Op : Type) where
  id : IncidentId
  code : IncidentCode
  subject : IncidentSubject
  subjectName : Option String
  transient : Bool
  observed : String
  allowed : Option String
  evidence : IncidentEvidence
  revision : TimelineRevision
  openedAt : Duration
  count : ℕ
  state : IncidentState
  telemetry : IncidentTelemetry
  proposal : Option (IncidentProposal Op)
deriving DecidableEq

structure IncidentObservation where
  code : IncidentCode
  subject : IncidentSubject
  observed : String
  allowed : Option String
  evidence : IncidentEvidence
  revision : TimelineRevision
  name : Option String
  transient : Bool

/-- `IncidentObservation::plain`. -/
def IncidentObservation.plain (code : IncidentCode) (subject : IncidentSubject) (observed : String)
    (revision : TimelineRevision) : IncidentObservation where
  code := code
  subject := subject
  observed := observed
  allowed := none
  evidence := .plain
  revision := revision
  name := none
  transient := false

inductive RecordProposalError
  | notFound | notInvestigating | alreadyRecorded
deriving DecidableEq

/-- What `observe` did with an observation. -/
inductive Observed
  | suppressed
  | deduped (id : IncidentId)
  | opened (id : IncidentId)
deriving DecidableEq

/-! ## Texts with a ceiling -/

/-- The bytes of one character after JSON escaping. Only ASCII characters are escaped, and every byte
of another character counts once. -/
def jsonEscapedCharLen (c : Char) : ℕ :=
  if c.toNat ∈ [0x22, 0x5c, 0x08, 0x09, 0x0a, 0x0c, 0x0d] then 2
  else if c.toNat ≤ 0x1f then 6
  else c.utf8Size

/-- `json_escaped_len`. -/
def jsonEscapedLen (text : List Char) : ℕ := (text.map jsonEscapedCharLen).sum

/-- `str::len`, in bytes. -/
def byteLen (text : List Char) : ℕ := (text.map Char.utf8Size).sum

/-- The text up to `floor_char_boundary`: as many whole characters as fit in `index` bytes. -/
def floorCharBoundary : List Char → ℕ → List Char
  | [], _ => []
  | c :: text, index => if c.utf8Size ≤ index then c :: floorCharBoundary text (index - c.utf8Size) else []

theorem byteLen_floorCharBoundary_le (text : List Char) (index : ℕ) :
    byteLen (floorCharBoundary text index) ≤ index := by
  induction text generalizing index with
  | nil => exact Nat.zero_le _
  | cons c text ih =>
    rw [floorCharBoundary]
    split
    · have := ih (index - c.utf8Size)
      rw [byteLen, List.map_cons, List.sum_cons]
      rw [byteLen] at this
      omega
    · exact Nat.zero_le _

/-- The loop of `truncate_to_serialized_bytes`: shrink in proportion until the text fits. -/
def truncateLoop (candidate : List Char) (ceiling : ℕ) : List Char :=
  if jsonEscapedLen candidate ≤ ceiling then candidate
  else if byteLen candidate = 0 then candidate
  else truncateLoop (floorCharBoundary candidate
    (min (byteLen candidate * ceiling / jsonEscapedLen candidate) (byteLen candidate - 1))) ceiling
termination_by byteLen candidate
decreasing_by
  have := byteLen_floorCharBoundary_le candidate
    (min (byteLen candidate * ceiling / jsonEscapedLen candidate) (byteLen candidate - 1))
  omega

/-- `truncate_to_serialized_bytes`. -/
def truncateToSerializedBytes (text : String) (ceiling : ℕ) : String :=
  String.ofList (truncateLoop text.toList ceiling)

/-- The ceiling of an observed subject name. -/
def SUBJECT_NAME_CEILING_BYTES : ℕ := 64

/-- The ceiling of the two texts of a proposal. -/
def INVESTIGATOR_EXPLANATION_CEILING_BYTES : ℕ := 240

/-! ## The log -/

structure IncidentLog (Op : Type) where
  nextId : ℕ
  entries : List (Incident Op)
  suppressed : Finset (IncidentCode × IncidentSubject)
  generation : ℕ
  /-- The reading of the wall clock at the start, in nanoseconds since the epoch. -/
  wallOrigin : Option ℤ
  loadedWall : KeyedMap IncidentId (Option ℤ)

namespace Incident

/-- What a repeat observation of the problem changes. -/
def absorb (observation : IncidentObservation) (incident : Incident Op) : Incident Op :=
  { incident with
    count := min (incident.count + 1) (2 ^ 32 - 1)
    revision := observation.revision
    transient := incident.transient && observation.transient }

/-- The incident is outstanding and about the same problem. -/
def absorbs (incident : Incident Op) (code : IncidentCode) (subject : IncidentSubject) (observed : String) : Bool :=
  incident.state.isOpen && decide (incident.code = code) && decide (incident.subject = subject) &&
    decide (incident.observed = observed)

/-- The proposal, if there is one, marked as stale. -/
def staled (incident : Incident Op) : Incident Op :=
  { incident with proposal := incident.proposal.map fun proposal => { proposal with stale := true } }

end Incident

namespace IncidentLog

/-- `IncidentLog::with_start`. -/
def withStart (wallOrigin : Option ℤ) : IncidentLog Op where
  nextId := 1
  entries := []
  suppressed := ∅
  generation := 0
  wallOrigin := wallOrigin
  loadedWall := .empty

variable (log : IncidentLog Op)

/-- `bump_generation`. -/
def bumpGeneration : IncidentLog Op := { log with generation := saturatingSucc log.generation }

/-- `IncidentLog::get`. -/
def get (id : IncidentId) : Option (Incident Op) := log.entries.find? fun incident => incident.id = id

/-- The incident with that id changed in place, and the change counted. -/
def write (id : IncidentId) (change : Incident Op → Incident Op) : IncidentLog Op :=
  { log with entries := log.entries.modifyFirst (fun incident => incident.id = id) change }
    |>.bumpGeneration

/-- `would_open`. -/
def wouldOpen (code : IncidentCode) (subject : IncidentSubject) (observed : String) : Bool :=
  if (code, subject) ∈ log.suppressed then false
  else !log.entries.any fun incident => incident.absorbs code subject observed

/-- The incident that an observation opens. -/
def opening (observation : IncidentObservation) (elapsed : Duration) : Incident Op where
  id := log.nextId
  code := observation.code
  subject := observation.subject
  subjectName := observation.name.map fun name =>
    truncateToSerializedBytes name SUBJECT_NAME_CEILING_BYTES
  transient := observation.transient
  observed := observation.observed
  allowed := observation.allowed
  evidence := observation.evidence
  revision := observation.revision
  openedAt := elapsed
  count := 1
  state := .opened
  telemetry := .default
  proposal := none

/-- `observe`, at a time on the session clock. -/
def observe (observation : IncidentObservation) (elapsed : Duration) : Observed × IncidentLog Op :=
  if (observation.code, observation.subject) ∈ log.suppressed then (.suppressed, log)
  else
    match log.entries.find? fun incident =>
      incident.absorbs observation.code observation.subject observation.observed with
    | some existing =>
      (.deduped existing.id, { log with
          entries := log.entries.modifyFirst (fun incident =>
            incident.absorbs observation.code observation.subject observation.observed)
            (Incident.absorb observation) }.bumpGeneration)
    | none =>
      (.opened log.nextId, { log with
          nextId := saturatingSucc log.nextId
          entries := log.entries ++ [log.opening observation elapsed] }.bumpGeneration)

/-- `resolve`, at a time on the session clock. -/
def resolve (id : IncidentId) (outcome : IncidentOutcome) (elapsed : Duration) : Bool × IncidentLog Op :=
  match log.get id with
  | none => (false, log)
  | some incident =>
    (true, { log with suppressed := insert (incident.code, incident.subject) log.suppressed }.write id
      fun incident =>
        { incident with
          state := .resolved outcome
          telemetry := { incident.telemetry with resolvedAfter := some elapsed } })

/-- `note_auto_applied`. -/
def noteAutoApplied (id : IncidentId) : Bool × IncidentLog Op :=
  match log.get id with
  | none => (false, log)
  | some incident =>
    (true, { log with
      suppressed := insert (incident.code, incident.subject) log.suppressed }.bumpGeneration)

/-- `remove_open_with_code`. -/
def removeOpenWithCode (code : IncidentCode) : ℕ × IncidentLog Op :=
  let kept := log.entries.filter fun entry => !(entry.state.isOpen && decide (entry.code = code))
  let dropped := log.entries.length - kept.length
  if 0 < dropped then
    (dropped, { log with
      entries := kept
      loadedWall := log.loadedWall.filter fun id _ => id ∈ kept.map Incident.id }.bumpGeneration)
  else (dropped, { log with entries := kept })

/-- `refresh_revision`. -/
def refreshRevision (id : IncidentId) (revision : TimelineRevision) : Bool × IncidentLog Op :=
  match log.get id with
  | none => (false, log)
  | some incident =>
    if incident.state.isOpen then
      (true, log.write id fun incident => { incident with revision := revision })
    else (false, log)

/-- `begin_investigation`. -/
def beginInvestigation (id : IncidentId) : Bool × IncidentLog Op :=
  match log.get id with
  | none => (false, log)
  | some incident =>
    if incident.state = .opened then
      (true, log.write id fun incident => { incident with state := .investigating }.staled)
    else (false, log)

/-- `end_investigation`. -/
def endInvestigation (id : IncidentId) (stoppedReason : IncidentResolver) : Bool × IncidentLog Op :=
  match log.get id with
  | none => (false, log)
  | some incident =>
    if incident.state = .investigating then
      (true, log.write id fun incident =>
        { incident with
          state := .opened
          telemetry := { incident.telemetry with resolver := some stoppedReason } })
    else (false, log)

/-- `record_proposal`. -/
def recordProposal (id : IncidentId) (proposal : IncidentProposal Op) :
    Except RecordProposalError Unit × IncidentLog Op :=
  match log.get id with
  | none => (.error .notFound, log)
  | some incident =>
    if incident.state ≠ .investigating then (.error .notInvestigating, log)
    else if incident.proposal.any fun existing => !existing.stale then
      (.error .alreadyRecorded, log)
    else (.ok (), log.write id fun incident => { incident with proposal := some proposal })

/-- `mark_proposal_stale`. -/
def markProposalStale (id : IncidentId) : Bool × IncidentLog Op :=
  match log.get id with
  | none => (false, log)
  | some incident =>
    if incident.state.isOpen then
      match incident.proposal with
      | none => (false, log)
      | some proposal =>
        if proposal.stale then (false, log) else (true, log.write id Incident.staled)
    else (false, log)

/-- `telemetry_mut`, and what is written through the reference that it hands out. -/
def telemetryMut (id : IncidentId) (telemetry : IncidentTelemetry) : IncidentLog Op :=
  match log.get id with
  | none => log
  | some _ => log.write id fun incident => { incident with telemetry := telemetry }

/-- `open_count`. -/
def openCount : ℕ := (log.entries.filter fun incident => incident.state.isOpen).length

end IncidentLog

/-! ## Writers -/

/-- A call of a writer of the log. The time is the session clock's at the call. -/
inductive Writer (Op : Type)
  | observe (observation : IncidentObservation) (elapsed : Duration)
  | resolve (id : IncidentId) (outcome : IncidentOutcome) (elapsed : Duration)
  | noteAutoApplied (id : IncidentId)
  | removeOpenWithCode (code : IncidentCode)
  | refreshRevision (id : IncidentId) (revision : TimelineRevision)
  | beginInvestigation (id : IncidentId)
  | endInvestigation (id : IncidentId) (stoppedReason : IncidentResolver)
  | recordProposal (id : IncidentId) (proposal : IncidentProposal Op)
  | markProposalStale (id : IncidentId)
  | telemetryMut (id : IncidentId) (telemetry : IncidentTelemetry)

/-- Whether the call is an observation. -/
def Writer.isObserve : Writer Op → Bool
  | .observe _ _ => true
  | _ => false

/-- The log after a call. -/
def IncidentLog.call (log : IncidentLog Op) : Writer Op → IncidentLog Op
  | .observe observation elapsed => (log.observe observation elapsed).2
  | .resolve id outcome elapsed => (log.resolve id outcome elapsed).2
  | .noteAutoApplied id => (log.noteAutoApplied id).2
  | .removeOpenWithCode code => (log.removeOpenWithCode code).2
  | .refreshRevision id revision => (log.refreshRevision id revision).2
  | .beginInvestigation id => (log.beginInvestigation id).2
  | .endInvestigation id stoppedReason => (log.endInvestigation id stoppedReason).2
  | .recordProposal id proposal => (log.recordProposal id proposal).2
  | .markProposalStale id => (log.markProposalStale id).2
  | .telemetryMut id telemetry => log.telemetryMut id telemetry

end Kinewright.Incidents
