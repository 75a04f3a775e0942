import Kinewright.Lib.KeyedMap

/-!
# The export queue

`export_queue.rs`: callers enqueue, read and cancel jobs while one worker takes them from a bounded
channel, encodes them and measures what it wrote. Every step is one access to what the threads share:
the table of jobs under its lock, a cancellation token, or the channel.

What the filesystem, the encoder and the measurements answer is an input of the step that asks.
-/

namespace Kinewright.Export

abbrev ExportJobId := ℕ

inductive ExportJobState
  | queued
  | running
  | completed
  | failed
  | cancelled
deriving DecidableEq

/-- `ExportJobState::is_terminal`. -/
def ExportJobState.isTerminal : ExportJobState → Bool
  | .completed | .failed | .cancelled => true
  | .queued | .running => false

structure ExportJobProgress where
  completedFrames : ℕ
  totalFrames : ℕ
deriving DecidableEq

/-- `EXPORT_CANCELLED_BEFORE_VERIFICATION`. -/
def exportCancelledBeforeVerification : String := "cancelled before verification"

variable {Video Audio Report : Type}

/-- `ExportJobRecord`, over the types of the measurements of the picture and of the sound and of the
normalization's report. -/
structure ExportJobRecord (Video Audio Report : Type) where
  id : ExportJobId
  outputPath : String
  state : ExportJobState
  progress : ExportJobProgress
  error : Option String
  verification : Option Video
  verificationUnavailableReason : Option String
  verifying : Bool
  audioReport : Option Report
  audioVerification : Option Audio
  audioVerificationUnavailableReason : Option String

/-- What `mark_cancelled` writes. -/
def ExportJobRecord.markCancelled (record : ExportJobRecord Video Audio Report)
    (verificationUnavailableReason audioVerificationUnavailableReason : Option String) :
    ExportJobRecord Video Audio Report :=
  { record with
    state := .cancelled
    error := none
    verification := none
    verificationUnavailableReason := verificationUnavailableReason
    audioVerification := none
    audioVerificationUnavailableReason := audioVerificationUnavailableReason }

/-- What `set_progress` writes. -/
def ExportJobRecord.setProgress (record : ExportJobRecord Video Audio Report)
    (progress : ExportJobProgress) : ExportJobRecord Video Audio Report :=
  { record with progress :=
      { completedFrames := min progress.completedFrames progress.totalFrames
        totalFrames := progress.totalFrames } }

/-- `StoredJob`. Its token is in the state's `cancelled`, under the job's id. -/
structure StoredJob (Video Audio Report : Type) where
  record : ExportJobRecord Video Audio Report
  outputKey : String

structure WorkItem where
  id : ExportJobId
  outputPath : String
  verify : Bool

inductive ExportQueueError
  | outputInUse (path : String)
  | idExhausted
  | queueFull (capacity : ℕ)
deriving DecidableEq

/-! ## What the worker is told -/

/-- What `export_document_reporting` returned, or the panic that was caught. -/
inductive EncodeResult (Report : Type)
  | finished (audio : Option Report)
  | cancelled
  | failed (error : String)
  | panicked (payload : String)

/-- The encode wrote its file. -/
def EncodeResult.isFinished : EncodeResult Report → Bool
  | .finished _ => true
  | _ => false

inductive VerificationOutcome (Video : Type)
  | notRequested
  | measured (measurement : Video)
  | unavailable (reason : String)

inductive AudioVerificationOutcome (Audio : Type)
  | measured (measurement : Audio)
  | unavailable (reason : String)

/-- What the outside answers. A step of the worker reads the answer to what it asks. -/
structure Outside (Video Audio Report : Type) where
  mediaPreflight : Option String
  lutPreflight : Option String
  workerOutput : Option String
  encode : EncodeResult Report
  sourceIdentityDrift : Option String
  quarantineUntrustedOutput : String
  verifyDeliveryOutput : Except String Video
  verifyDeliveryAudio : Except String Audio

/-- `verify_output`. -/
def verifyOutput (outside : Outside Video Audio Report) (verify : Bool) : VerificationOutcome Video :=
  if !verify then .notRequested
  else match outside.verifyDeliveryOutput with
    | .ok measurement => .measured measurement
    | .error reason => .unavailable reason

/-- `verify_audio_output`. -/
def verifyAudioOutput (outside : Outside Video Audio Report) : AudioVerificationOutcome Audio :=
  match outside.verifyDeliveryAudio with
  | .ok measurement => .measured measurement
  | .error reason => .unavailable reason

/-! ## The state -/

/-- Where the worker is in `worker_loop`, before its next access to what is shared. -/
inductive Worker (Video Audio Report : Type)
  /-- In `recv`. -/
  | idle
  /-- Before it reads the token of the item that it took. -/
  | received (work : WorkItem)
  /-- Before `mark_running`. -/
  | clear (work : WorkItem)
  /-- Before `mark_cancelled` without reasons. -/
  | skipping (work : WorkItem)
  /-- Before the preflights. -/
  | started (work : WorkItem)
  /-- In the backend. -/
  | encoding (work : WorkItem)
  /-- Before it reads the token again. -/
  | encoded (work : WorkItem) (result : EncodeResult Report)
  /-- Before `mark_cancelled` with its reasons. -/
  | abandoning (work : WorkItem) (result : EncodeResult Report)
  /-- Before the match on the result. -/
  | settling (work : WorkItem) (result : EncodeResult Report)
  /-- Before `set_verifying`. -/
  | vouching (work : WorkItem) (report : Option Report)
  /-- In the measurements. -/
  | verifying (work : WorkItem) (report : Option Report)
  /-- Before `mark_completed`. -/
  | measured (work : WorkItem) (verification : VerificationOutcome Video)
      (audio : AudioVerificationOutcome Audio) (report : Option Report)
  /-- Before `mark_failed`, without a file to vouch for. -/
  | failing (work : WorkItem) (error : String)
  /-- Before `mark_failed`, with the encode quarantined. -/
  | quarantining (work : WorkItem) (error : String)

structure QueueState (Video Audio Report : Type) where
  capacity : ℕ
  jobs : KeyedMap ExportJobId (StoredJob Video Audio Report)
  nextId : ℕ
  /-- The tokens that are cancelled. -/
  cancelled : Finset ExportJobId
  /-- The items of the callers that are between the table and the channel. -/
  sending : List WorkItem
  channel : List WorkItem
  worker : Worker Video Audio Report

namespace QueueState

/-- `ExportQueue::configured`. -/
def new (capacity : ℕ) : QueueState Video Audio Report where
  capacity := capacity
  jobs := .empty
  nextId := 1
  cancelled := ∅
  sending := []
  channel := []
  worker := .idle

variable (s : QueueState Video Audio Report)

/-- Change the record of a job, if there is one. -/
def modify (id : ExportJobId) (f : ExportJobRecord Video Audio Report → ExportJobRecord Video Audio Report) :
    QueueState Video Audio Report :=
  { s with jobs := s.jobs.map fun id' job =>
      if id' = id then { job with record := f job.record } else job }

/-- A job that is neither done nor cancelled writes to the path. -/
def ownsOutput (outputKey : String) : Prop :=
  ∃ id ∈ s.jobs.keys, ∃ job ∈ s.jobs.get? id, job.record.state.isTerminal = false ∧ job.outputKey = outputKey

instance (outputKey : String) : Decidable (s.ownsOutput outputKey) :=
  inferInstanceAs (Decidable (∃ id ∈ s.jobs.keys, _))

/-! ## The callers -/

/-- The part of `ExportQueue::enqueue` under the lock, after the request passed its checks. -/
def insert (outputPath outputKey : String) (verify : Bool) :
    Except ExportQueueError (ExportJobRecord Video Audio Report × QueueState Video Audio Report) :=
  if s.ownsOutput outputKey then .error (.outputInUse outputPath)
  else if 2 ^ 64 ≤ s.nextId + 1 then .error .idExhausted
  else
    let record : ExportJobRecord Video Audio Report :=
      { id := s.nextId
        outputPath := outputPath
        state := .queued
        progress := ⟨0, 0⟩
        error := none
        verification := none
        verificationUnavailableReason := none
        verifying := false
        audioReport := none
        audioVerification := none
        audioVerificationUnavailableReason := none }
    .ok (record, { s with
        nextId := s.nextId + 1
        jobs := s.jobs.insert s.nextId { record, outputKey }
        sending := s.sending ++ [{ id := s.nextId, outputPath, verify }] })

/-- The end of `ExportQueue::enqueue`: an item that the channel has no room for loses its job. -/
def send (work : WorkItem) : Except ExportQueueError Unit × QueueState Video Audio Report :=
  let sent := { s with sending := s.sending.eraseP fun other => other.id = work.id }
  if s.channel.length < s.capacity then (.ok (), { sent with channel := s.channel ++ [work] })
  else (.error (.queueFull s.capacity), { sent with jobs := s.jobs.erase work.id })

/-- `ExportQueue::get`. -/
def get (id : ExportJobId) : Option (ExportJobRecord Video Audio Report) := (s.jobs.get? id).map StoredJob.record

/-- `ExportQueue::cancel`. -/
def cancel (id : ExportJobId) : QueueState Video Audio Report :=
  match s.jobs.get? id with
  | some job =>
    if job.record.state.isTerminal then s
    else
      { s.modify id fun record => { record with state := .cancelled, error := none } with
        cancelled := s.cancelled ∪ {id} }
  | none => s

/-! ## The worker -/

/-- `mark_running`. -/
def markRunning (id : ExportJobId) : Bool × QueueState Video Audio Report :=
  match s.jobs.get? id with
  | some job =>
    if job.record.state ≠ .queued ∨ id ∈ s.cancelled then (false, s)
    else (true, s.modify id fun record => { record with state := .running })
  | none => (false, s)

/-- `mark_completed`. -/
def markCompleted (id : ExportJobId) (verification : VerificationOutcome Video)
    (audio : AudioVerificationOutcome Audio) (audioReport : Option Report) :
    QueueState Video Audio Report :=
  s.modify id fun record =>
    if record.state = .cancelled then { record with verifying := false }
    else
      { record with
        verifying := false
        state := .completed
        error := none
        verification := match verification with
          | .measured measurement => some measurement
          | _ => none
        verificationUnavailableReason := match verification with
          | .unavailable reason => some reason
          | _ => none
        audioVerification := match audio with
          | .measured measurement => some measurement
          | .unavailable _ => none
        audioVerificationUnavailableReason := match audio with
          | .measured _ => none
          | .unavailable reason => some reason
        audioReport := audioReport
        progress :=
          if 0 < record.progress.totalFrames then
            { record.progress with completedFrames := record.progress.totalFrames }
          else record.progress }

/-- `set_verifying`. -/
def setVerifying (id : ExportJobId) (verifying : Bool) : QueueState Video Audio Report :=
  s.modify id fun record => { record with verifying := verifying }

/-- `mark_failed`. -/
def markFailed (id : ExportJobId) (error : String) : QueueState Video Audio Report :=
  s.modify id fun record =>
    if record.state = .cancelled then record
    else { record with state := .failed, error := some error }

/-- `mark_cancelled`. -/
def markCancelled (id : ExportJobId)
    (verificationUnavailableReason audioVerificationUnavailableReason : Option String) :
    QueueState Video Audio Report :=
  match s.jobs.get? id with
  | some _ =>
    { s.modify id fun record =>
        record.markCancelled verificationUnavailableReason audioVerificationUnavailableReason with
      cancelled := s.cancelled ∪ {id} }
  | none => s

/-- `set_progress`. -/
def setProgress (id : ExportJobId) (progress : ExportJobProgress) : QueueState Video Audio Report :=
  s.modify id fun record => record.setProgress progress

/-- The worker at another place. -/
def goto (worker : Worker Video Audio Report) : QueueState Video Audio Report := { s with worker := worker }

/-- The next access of `worker_loop`, `run_work_item` or `verify_and_settle`. -/
def work (outside : Outside Video Audio Report) : QueueState Video Audio Report :=
  match s.worker with
  | .idle => match s.channel with
      | [] => s
      | work :: channel => { s with channel := channel, worker := .received work }
  | .received work =>
    if work.id ∈ s.cancelled then s.goto (.skipping work) else s.goto (.clear work)
  | .clear work => match s.markRunning work.id with
      | (true, s) => s.goto (.started work)
      | (false, s) => s.goto (.skipping work)
  | .skipping work => (s.markCancelled work.id none none).goto .idle
  | .started work =>
    match outside.mediaPreflight <|> outside.lutPreflight <|> outside.workerOutput with
    | some error => s.goto (.failing work error)
    | none => s.goto (.encoding work)
  | .encoding work => s.goto (.encoded work outside.encode)
  | .encoded work result =>
    if work.id ∈ s.cancelled then s.goto (.abandoning work result)
    else s.goto (.settling work result)
  | .abandoning work _ =>
    (s.markCancelled work.id (if work.verify then some exportCancelledBeforeVerification else none)
      (some exportCancelledBeforeVerification)).goto .idle
  | .settling work (.finished report) => match outside.sourceIdentityDrift with
      | some reason => s.goto (.quarantining work (s!"a source file changed between the export " ++
          s!"preflight and the finished encode, so the output cannot be trusted: {reason}; " ++
          outside.quarantineUntrustedOutput))
      | none => s.goto (.vouching work report)
  | .settling work .cancelled => s.goto (.skipping work)
  | .settling work (.failed error) => s.goto (.failing work error)
  | .settling work (.panicked payload) =>
    s.goto (.failing work s!"export backend panicked: {payload}")
  | .vouching work report => (s.setVerifying work.id true).goto (.verifying work report)
  | .verifying work report =>
    s.goto (.measured work (verifyOutput outside work.verify) (verifyAudioOutput outside) report)
  | .measured work verification audio report =>
    (s.markCompleted work.id verification audio report).goto .idle
  | .failing work error | .quarantining work error => (s.markFailed work.id error).goto .idle

/-! ## Interleavings -/

end QueueState

/-- One access to what is shared, by a caller or by the worker. -/
inductive Action (Video Audio Report : Type)
  | insert (outputPath outputKey : String) (verify : Bool)
  | send (id : ExportJobId)
  | get (id : ExportJobId)
  | cancel (id : ExportJobId)
  /-- The backend cancels the token that it was given. -/
  | token
  /-- The monitor thread of the encode that runs. -/
  | progress (progress : ExportJobProgress)
  | work (outside : Outside Video Audio Report)

/-- The state after an access. -/
def QueueState.step (s : QueueState Video Audio Report) : Action Video Audio Report → QueueState Video Audio Report
  | .insert outputPath outputKey verify => match s.insert outputPath outputKey verify with
      | .ok (_, s) => s
      | .error _ => s
  | .send id => match s.sending.find? fun work => work.id = id with
      | some work => (s.send work).2
      | none => s
  | .get _ => s
  | .cancel id => s.cancel id
  | .token => match s.worker with
      | .encoding work => { s with cancelled := s.cancelled ∪ {work.id} }
      | _ => s
  | .progress progress => match s.worker with
      | .encoding work => s.setProgress work.id progress
      | _ => s
  | .work outside => s.work outside

end Kinewright.Export
