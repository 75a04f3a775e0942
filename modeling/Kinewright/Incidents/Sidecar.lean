import Kinewright.Incidents.Log

/-!
# The sidecar of the incident log

`incident.rs`: the records that a log is written as, and the log that is restored from records. A
record leaves out what is derived, and never carries a live proposal.
-/

namespace Kinewright.Incidents

open Model Core

variable {Op : Type}

/-! ## Stops -/

/-- `INTERRUPTED_STOP`. -/
def INTERRUPTED_STOP : String := "interrupted: Kinewright closed"

/-- The stops that persist verbatim. -/
def STOPS : List String :=
  ["completed", "budget: turns", "budget: wall time", "budget: tokens",
    "the session asked for a confirmation", "the agent event stream disconnected",
    "the investigator was switched off", "the investigator session ended unexpectedly",
    "the investigator session could not start", "re-investigated", INTERRUPTED_STOP,
    "the project was closed", "Kinewright is closing", "the incident was resolved elsewhere",
    "the proposal conflicted twice against the live timeline",
    "the live timeline refused the proposal", "the proposal carried no operations"]

/-- `persisted_stop`. -/
def persistedStop (stop : String) : String :=
  if stop ∈ STOPS then stop
  else if "harness: ".toList <+: stop.toList then "harness"
  else if "observer: ".toList <+: stop.toList then "observer"
  else "session"

/-- `persisted_resolver`. -/
def persistedResolver : IncidentResolver → IncidentResolver
  | .session harness model stop => .session harness model (persistedStop stop)
  | other => other

/-! ## Records -/

/-- A session that still runs while the sidecar is written. -/
structure RunningInvestigation where
  id : IncidentId
  harness : String
  model : Option String
  turns : ℕ
  inputTokens : Option ℕ
  cachedInputTokens : Option ℕ
  cacheCreationInputTokens : Option ℕ
  outputTokens : Option ℕ
  reasoningOutputTokens : Option ℕ
  costUsdMillionths : Option ℤ

structure IncidentRecord (Op : Type) where
  id : IncidentId
  code : String
  subject : IncidentSubject
  observed : String
  allowed : Option String
  evidence : IncidentEvidence
  revision : TimelineRevision
  openedWallMillis : Option ℤ
  openedOffsetNanos : ℕ
  count : ℕ
  state : IncidentState
  telemetry : IncidentTelemetry
  proposal : Option (IncidentProposal Op)
  subjectName : Option String
  refusedOp : Option Op
deriving DecidableEq

/-- What one call of `records` emitted. -/
structure WriteReport where
  writtenOpen : ℕ
  writtenResolved : ℕ
  droppedTransientOpen : ℕ
  prunedResolved : ℕ
deriving DecidableEq

/-- The entries that a write reports. -/
def WriteReport.total (report : WriteReport) : ℕ :=
  report.writtenOpen + report.writtenResolved + report.droppedTransientOpen + report.prunedResolved

/-- What one call of `restore` loaded. -/
structure RestoreReport (Op : Type) where
  restoredOpen : ℕ
  restoredResolved : ℕ
  unknownCodes : List (String × ℕ)
  rebased : ℕ
  carried : List String
  refused : KeyedMap IncidentId Op
  invalidIds : ℕ

/-- How many resolved incidents a write keeps. -/
def MAX_PERSISTED_RESOLVED : ℕ := 256

/-- How many bytes a stashed operation may have. -/
def REFUSED_STASH_CEILING_BYTES : ℕ := 4096

/-- The highest id that can restore. -/
def MAX_RESTORED_ID : ℕ := 2 ^ 63 - 1

/-- The problem that a record is about. -/
def IncidentRecord.key (record : IncidentRecord Op) : String × IncidentSubject × String :=
  (record.code, record.subject, record.observed)

/-- `record_state_and_telemetry`: a settled entry has its stop categorised, an entry under
investigation is written as open, with the counters of its session. -/
def Incident.recordStateAndTelemetry (entry : Incident Op) (running : Option RunningInvestigation) :
    IncidentState × IncidentTelemetry :=
  if entry.state ≠ .investigating then
    (entry.state,
      { entry.telemetry with resolver := entry.telemetry.resolver.map persistedResolver })
  else
    match running.filter fun run => run.id = entry.id with
    | some run =>
      (.opened, { entry.telemetry with
          turns := some run.turns
          inputTokens := run.inputTokens
          cachedInputTokens := run.cachedInputTokens
          cacheCreationInputTokens := run.cacheCreationInputTokens
          outputTokens := run.outputTokens
          reasoningOutputTokens := run.reasoningOutputTokens
          costUsdMillionths := run.costUsdMillionths
          resolver := some (.session run.harness run.model INTERRUPTED_STOP) })
    | none =>
      (.opened, { entry.telemetry with resolver := some (.session "" none INTERRUPTED_STOP) })

namespace IncidentLog

/-- `record_wall_millis`: a carried wall time as it is, else the origin and the offset. The sum may
be before the epoch or past what an `i64` of milliseconds holds. -/
def recordWallMillis (log : IncidentLog Op) (entry : Incident Op) : Option ℤ :=
  match log.loadedWall.get? entry.id with
  | some carried => carried
  | none => log.wallOrigin.bind fun origin =>
    let wall := origin + entry.openedAt
    if 0 ≤ wall ∧ wall / 10 ^ 6 < 2 ^ 63 then some (wall / 10 ^ 6) else none

/-- `record_for_entry`. -/
def recordForEntry (log : IncidentLog Op) (compactJsonLen : Op → ℕ) (entry : Incident Op)
    (running : Option RunningInvestigation) (refusedOp : Option Op) : IncidentRecord Op where
  id := entry.id
  code := entry.code.code
  subject := entry.subject
  observed := entry.observed
  allowed := entry.allowed
  evidence := entry.evidence
  revision := entry.revision
  openedWallMillis := log.recordWallMillis entry
  openedOffsetNanos := min entry.openedAt (2 ^ 64 - 1)
  count := entry.count
  state := (entry.recordStateAndTelemetry running).1
  telemetry := { (entry.recordStateAndTelemetry running).2 with resolvedAfter := none }
  proposal := entry.proposal.map fun proposal =>
    { proposal with
      stale := true
      operations := [] }
  subjectName := entry.subjectName
  refusedOp := refusedOp.filter fun op => compactJsonLen op ≤ REFUSED_STASH_CEILING_BYTES

/-- The resolved entries that a write leaves out, oldest first. -/
def pruned (log : IncidentLog Op) : List IncidentId :=
  let resolvedIds := (log.entries.filter fun entry => !entry.state.isOpen).map Incident.id
  (resolvedIds.insertionSort (· ≤ ·)).take (resolvedIds.length - MAX_PERSISTED_RESOLVED)

/-- One entry of the loop of `records`. -/
def recordsStep (log : IncidentLog Op) (compactJsonLen : Op → ℕ)
    (running : Option RunningInvestigation) (refused : KeyedMap IncidentId Op)
    (written : List (IncidentRecord Op) × WriteReport) (entry : Incident Op) :
    List (IncidentRecord Op) × WriteReport :=
  if entry.state.isOpen then
    if entry.transient then
      (written.1, { written.2 with droppedTransientOpen := written.2.droppedTransientOpen + 1 })
    else
      (written.1 ++ [log.recordForEntry compactJsonLen entry running (refused.get? entry.id)],
        { written.2 with writtenOpen := written.2.writtenOpen + 1 })
  else if entry.id ∈ log.pruned then
    (written.1, { written.2 with prunedResolved := written.2.prunedResolved + 1 })
  else
    (written.1 ++ [log.recordForEntry compactJsonLen entry running (refused.get? entry.id)],
      { written.2 with writtenResolved := written.2.writtenResolved + 1 })

/-- `records`. -/
def records (log : IncidentLog Op) (compactJsonLen : Op → ℕ)
    (running : Option RunningInvestigation) (refused : KeyedMap IncidentId Op) :
    List (IncidentRecord Op) × WriteReport :=
  log.entries.foldl (log.recordsStep compactJsonLen running refused) ([], ⟨0, 0, 0, 0⟩)

end IncidentLog

/-! ## Restoring -/

/-- `restore_id_resume`: above every restorable id, and the floor clamped to the ceiling. -/
structure RestoreIdResume where
  nextId : Option ℕ
  unknownSkipped : ℕ
deriving DecidableEq

/-- One id of the loop of `restore_id_resume`: the maximum, and the count of unknown codes. -/
def restoreIdStep (scanned : Option ℕ × ℕ) (input : ℕ × Bool) : Option ℕ × ℕ :=
  (if input.1 ≤ MAX_RESTORED_ID then some (scanned.1.elim input.1 fun most => max most input.1)
    else scanned.1,
    if input.2 then scanned.2 else scanned.2 + 1)

def restoreIdResume (ids : List (ℕ × Bool)) (idFloor : Option ℕ) : RestoreIdResume :=
  let scanned := ids.foldl restoreIdStep (none, 0)
  let floor := idFloor.map fun floor => min floor MAX_RESTORED_ID
  let highest := match scanned.1, floor with
    | some most, some floor => some (max most floor)
    | some most, none => some most
    | none, floor => floor
  -- `checked_add`, which has room because of the ceiling.
  ⟨highest.bind fun most => if most + 1 < 2 ^ 64 then some (most + 1) else none, scanned.2⟩

/-- The state, telemetry and proposal with which a record is restored. -/
def IncidentRecord.restoredState (record : IncidentRecord Op) : IncidentState :=
  if record.state = .investigating then .opened else record.state

def IncidentRecord.restoredTelemetry (record : IncidentRecord Op) : IncidentTelemetry :=
  if record.state = .investigating then
    { record.telemetry with
      resolvedAfter := none
      resolver := match record.telemetry.resolver with
        | some (.session harness model _) => some (.session harness model INTERRUPTED_STOP)
        | _ => some (.session "" none INTERRUPTED_STOP) }
  else { record.telemetry with resolvedAfter := none }

def IncidentProposal.restored (proposal : IncidentProposal Op) (opening : TimelineRevision) : IncidentProposal Op :=
  { proposal with
    baseRevision := opening
    stale := true
    operations := []
    summary := truncateToSerializedBytes proposal.summary INVESTIGATOR_EXPLANATION_CEILING_BYTES
    explanation := truncateToSerializedBytes proposal.explanation INVESTIGATOR_EXPLANATION_CEILING_BYTES }

/-- The entry that a record is restored as. -/
def IncidentRecord.restored (record : IncidentRecord Op) (code : IncidentCode)
    (opening : TimelineRevision) : Incident Op where
  id := record.id
  code := code
  subject := record.subject
  subjectName := record.subjectName.map fun name =>
    truncateToSerializedBytes name SUBJECT_NAME_CEILING_BYTES
  transient := false
  observed := record.observed
  allowed := record.allowed
  evidence := record.evidence
  revision := opening
  openedAt := record.openedOffsetNanos
  count := record.count
  state := record.restoredState
  telemetry := record.restoredTelemetry
  proposal := record.proposal.map fun proposal => proposal.restored opening

/-- The revisions of a record that are rebased. -/
def IncidentRecord.rebased (record : IncidentRecord Op) (opening : TimelineRevision) : ℕ :=
  (if record.revision ≠ opening then 1 else 0) +
    record.proposal.elim 0 fun proposal => if proposal.baseRevision ≠ opening then 1 else 0

namespace RestoreReport

/-- `count_unknown`: one more of the code, in first-seen order. -/
def countUnknown (code : String) : List (String × ℕ) → List (String × ℕ)
  | [] => [(code, 1)]
  | entry :: rest => if entry.1 = code then (entry.1, entry.2 + 1) :: rest else entry :: countUnknown code rest

/-- The report before any record. -/
def start (carried : List String) : RestoreReport Op where
  restoredOpen := 0
  restoredResolved := 0
  unknownCodes := []
  rebased := 0
  carried := carried
  refused := .empty
  invalidIds := 0

/-- The report of a record that was restored. -/
def restoreOne (report : RestoreReport Op) (record : IncidentRecord Op)
    (opening : TimelineRevision) : RestoreReport Op :=
  { report with
    restoredOpen := report.restoredOpen + if record.restoredState.isOpen then 1 else 0
    restoredResolved := report.restoredResolved + if record.restoredState.isOpen then 0 else 1
    rebased := report.rebased + record.rebased opening
    refused := match record.refusedOp with
      | some op => report.refused.insert record.id op
      | none => report.refused }

end RestoreReport

/-- `restore` between two records. -/
structure Restoring (Op : Type) where
  log : IncidentLog Op
  report : RestoreReport Op
  idInputs : List (ℕ × Bool)
  seen : Finset ℕ

/-- `restore_one` of the log. -/
def IncidentLog.restoreOne (log : IncidentLog Op) (code : IncidentCode) (record : IncidentRecord Op)
    (opening : TimelineRevision) : IncidentLog Op :=
  { log with
    loadedWall := log.loadedWall.insert record.id record.openedWallMillis
    entries := log.entries ++ [record.restored code opening] }.bumpGeneration

/-- One record of the loop of `restore`. -/
def Restoring.next (opening : TimelineRevision) (r : Restoring Op) (stored : IncidentRecord Op) : Restoring Op :=
  match IncidentCode.fromCode stored.code with
  | none =>
    { r with
      report := { r.report with
        unknownCodes := RestoreReport.countUnknown stored.code r.report.unknownCodes }
      idInputs := r.idInputs ++ [(stored.id, false)] }
  | some code =>
    -- The first record with an id wins; one past the ceiling never does.
    if MAX_RESTORED_ID < stored.id ∨ stored.id ∈ r.seen then
      { r with report := { r.report with invalidIds := r.report.invalidIds + 1 } }
    else
      { log := r.log.restoreOne code stored opening
        report := r.report.restoreOne stored opening
        idInputs := r.idInputs ++ [(stored.id, true)]
        seen := insert stored.id r.seen }

/-- What `restore` notes of the records that it skipped. -/
def unknownCodesAggregate (skipped : ℕ) (opening : TimelineRevision) : IncidentObservation :=
  { IncidentObservation.plain (.label .sidecarUnknownCodes) .project
      ("incidents used codes this build does not know — " ++ toString skipped ++ " skipped")
      opening with
    transient := true }

/-- The body of `restore`. -/
def IncidentLog.restored (log : IncidentLog Op) (records : List (IncidentRecord Op))
    (carried : List String) (opening : TimelineRevision) (idFloor : Option ℕ) (elapsed : Duration) :
    IncidentLog Op × RestoreReport Op :=
  let r := records.foldl (Restoring.next opening) ⟨log, .start carried, [], ∅⟩
  let resume := restoreIdResume r.idInputs idFloor
  let resumed := { r.log with nextId := resume.nextId.getD r.log.nextId }
  (if 0 < resume.unknownSkipped then
    (resumed.observe (unknownCodesAggregate resume.unknownSkipped opening) elapsed).2
  else resumed, r.report)

/-- `restore`, which refuses a log that has entries. -/
def IncidentLog.restore (log : IncidentLog Op) (records : List (IncidentRecord Op))
    (carried : List String) (opening : TimelineRevision) (idFloor : Option ℕ) (elapsed : Duration) :
    Option (IncidentLog Op × RestoreReport Op) :=
  if log.entries = [] then some (log.restored records carried opening idFloor elapsed) else none

end Kinewright.Incidents
