import Mathlib
import Kinewright.Lib.KeyedMap

/-!
# The sidecar writer

`sidecar.rs`: one thread writes the sidecars of all sessions. A submission takes a sequence number, and then
sends its job through a channel that all submissions share, so that jobs need not arrive in the order of
their numbers. The thread takes the jobs that are there as one batch, keeps the latest of each path, and
tries only these.

A path stands for the file that the capability of a job leads to. What the file system and the lock make of
an attempt is given from outside.
-/

namespace Kinewright.Sidecar

/-- What an error of a write says. -/
abbrev WriteError := String

variable {Path : Type}

/-- `WriterJob`, without its capability. The channel of its acknowledgement is named by the place of the
submission that made it. -/
structure WriterJob (Path : Type) where
  path : Path
  seq : UInt64
  bytes : ByteArray
  ack : Option ℕ
deriving DecidableEq

inductive WriterMessage (Path : Type)
  | job (job : WriterJob Path)
  | stop
deriving DecidableEq

/-- Where the thread is in `writer_loop` and `write_batch`. A batch is the last one when it is the tail that
is landed before the thread ends. -/
inductive Phase (Path : Type)
  | receiving (batch : List (WriterJob Path)) (stopping : Bool)
  | draining (tail : List (WriterJob Path))
  | merging (batch latest : List (WriterJob Path)) (stopping last : Bool)
  | landing (winners : List (WriterJob Path)) (stopping last : Bool)
  | gone
deriving DecidableEq

/-- What became of the jobs that the thread is done with: the last number that was written to each path, the
files, the errors that nobody has taken yet, and all writes, failures, acknowledgements and taken errors. -/
structure Results (Path : Type) where
  lastWritten : KeyedMap Path UInt64
  files : Path → Option ByteArray
  errors : List (Path × WriteError)
  written : List (WriterJob Path)
  failed : List (WriterJob Path × WriteError)
  acks : List (WriterJob Path × Except WriteError Unit)
  taken : List (Path × WriteError)

/-- The writer and its thread, the submissions on their way to the channel and those that wait for an
acknowledgement, and all that were made or came back. -/
structure SidecarWriter (Path : Type) where
  seq : UInt64
  numbered : List (WriterJob Path)
  channel : List (WriterMessage Path)
  waiting : List (WriterJob Path)
  phase : Phase Path
  results : Results Path
  submitted : List (WriterJob Path)
  returned : List (WriterJob Path × Except WriteError Unit)

/-- `SidecarWriter::new`. The thread may fail to start. -/
def SidecarWriter.new (files : Path → Option ByteArray) (spawned : Bool) : SidecarWriter Path where
  seq := 0
  numbered := []
  channel := []
  waiting := []
  phase := if spawned then .receiving [] false else .gone
  results := ⟨.empty, files, [], [], [], [], []⟩
  submitted := []
  returned := []

/-- What may happen next: to a submission, or in the thread. -/
inductive Action (Path : Type)
  /-- A submission takes its number. -/
  | number (path : Path) (bytes : ByteArray) (joins : Bool)
  /-- A submission sends its job. -/
  | send (job : WriterJob Path)
  /-- The writer is dropped. -/
  | stop
  /-- The thread receives a message. -/
  | receive
  /-- The thread finds the channel empty. -/
  | complete
  /-- The next job of the batch is compared with the latest of its path. -/
  | merge
  /-- The latest jobs are put in the order of their numbers. -/
  | sort (winners : List (WriterJob Path))
  /-- The next job is written, or found to be stale. -/
  | land (result : Except WriteError Unit)
  /-- The batch is done. -/
  | finish
  /-- A submission comes back. -/
  | join (job : WriterJob Path)
  | takeErrors

/-- One more acknowledgement, if the job waits for it. -/
def Results.acknowledge (r : Results Path) (job : WriterJob Path) (result : Except WriteError Unit) : Results Path :=
  { r with acks := if job.ack = none then r.acks else r.acks ++ [(job, result)] }

/-- The job could not be written. Nobody waits for the result of a background job, which is kept. -/
def Results.fail (r : Results Path) (job : WriterJob Path) (error : WriteError) : Results Path :=
  { r with
    errors := if job.ack = none then r.errors ++ [(job.path, error)] else r.errors
    failed := r.failed ++ [(job, error)] }

/-- The thread goes on. -/
def SidecarWriter.goto (s : SidecarWriter Path) (phase : Phase Path) : SidecarWriter Path := { s with phase := phase }

/-- The job is acknowledged as written. -/
def SidecarWriter.ackOk (s : SidecarWriter Path) (job : WriterJob Path) : SidecarWriter Path :=
  { s with results := s.results.acknowledge job (.ok ()) }

/-- The submission comes back with the result. -/
def SidecarWriter.returns (s : SidecarWriter Path) (job : WriterJob Path)
    (result : Except WriteError Unit) : SidecarWriter Path :=
  { s with returned := s.returned ++ [(job, result)] }

section Steps

variable [DecidableEq Path]

/-- The job is written. -/
def Results.write (r : Results Path) (job : WriterJob Path) : Results Path :=
  { r with
    files := Function.update r.files job.path (some job.bytes)
    lastWritten := r.lastWritten.insert job.path job.seq
    written := r.written ++ [job] }

/-- A winner of the batch: it is stale, or it is tried. -/
def Results.land (r : Results Path) (job : WriterJob Path) (result : Except WriteError Unit) : Results Path :=
  if ∃ written ∈ r.lastWritten.get? job.path, job.seq ≤ written then r.acknowledge job (.ok ())
  else match result with
  | .ok () => (r.write job).acknowledge job (.ok ())
  | .error error => (r.fail job error).acknowledge job (.error error)

/-- One step of the first loop of `write_batch`. -/
def SidecarWriter.mergeOne (s : SidecarWriter Path) (job : WriterJob Path)
    (batch latest : List (WriterJob Path)) (stopping last : Bool) : SidecarWriter Path :=
  match latest.find? fun entry => entry.path = job.path with
  | none => s.goto (.merging batch (latest ++ [job]) stopping last)
  | some entry =>
    if entry.seq < job.seq then
      (s.ackOk entry).goto (.merging batch (latest.erase entry ++ [job]) stopping last)
    else (s.ackOk job).goto (.merging batch latest stopping last)

/-- `fetch_add`, by a submission. -/
def SidecarWriter.numberOne (s : SidecarWriter Path) (path : Path) (bytes : ByteArray) (joins : Bool) :
    SidecarWriter Path :=
  let job := ⟨path, s.seq, bytes, if joins then some s.submitted.length else none⟩
  { s with
    seq := s.seq + 1
    numbered := s.numbered ++ [job]
    submitted := s.submitted ++ [job] }

/-- A numbered job is sent, or refused by a thread that is gone. -/
def SidecarWriter.sendOne (s : SidecarWriter Path) (job : WriterJob Path) : SidecarWriter Path :=
  let sent := { s with numbered := s.numbered.erase job }
  if s.phase = .gone then
    if job.ack = none then sent else sent.returns job (.error "the sidecar writer is gone")
  else { sent with
    channel := s.channel ++ [.job job]
    waiting := if job.ack = none then s.waiting else s.waiting ++ [job] }

/-- The thread takes a message out of the channel. -/
def SidecarWriter.receiveOne (s : SidecarWriter Path) : Option (SidecarWriter Path) :=
  match s.phase, s.channel with
  | .receiving batch stopping, .job job :: channel =>
    some { s with phase := .receiving (batch ++ [job]) stopping, channel := channel }
  | .receiving batch _, .stop :: channel =>
    some { s with phase := .receiving batch true, channel := channel }
  | .draining tail, .job job :: channel =>
    some { s with phase := .draining (tail ++ [job]), channel := channel }
  | .draining tail, .stop :: channel =>
    some { s with phase := .draining tail, channel := channel }
  | _, _ => none

/-- The channel is empty, so the batch is complete. -/
def SidecarWriter.completeBatch (s : SidecarWriter Path) : Option (SidecarWriter Path) :=
  match s.phase, s.channel with
  | .receiving batch stopping, [] =>
    -- the first message of a batch is waited for
    if batch = [] ∧ stopping = false then none
    else some (s.goto (.merging batch [] stopping false))
  | .draining tail, [] => some (s.goto (.merging tail [] true true))
  | _, _ => none

/-- A waiting submission comes back with its acknowledgement, or because the thread is gone. -/
def SidecarWriter.joinOne (s : SidecarWriter Path) (job : WriterJob Path) : Option (SidecarWriter Path) :=
  let joined := { s with waiting := s.waiting.erase job }
  match s.results.acks.find? fun ack => ack.1.ack = job.ack with
  | some ack => some (joined.returns job ack.2)
  | none =>
    if s.phase = .gone then some (joined.returns job (.error "the sidecar writer died")) else none

/-- The next state, if the action is possible. -/
def SidecarWriter.step (s : SidecarWriter Path) : Action Path → Option (SidecarWriter Path)
  | .number path bytes joins => some (s.numberOne path bytes joins)
  | .send job => if job ∈ s.numbered then some (s.sendOne job) else none
  | .stop => some { s with channel := s.channel ++ [.stop] }
  | .receive => s.receiveOne
  | .complete => s.completeBatch
  | .merge => match s.phase with
      | .merging (job :: batch) latest stopping last => some (s.mergeOne job batch latest stopping last)
      | _ => none
  | .sort winners => match s.phase with
      | .merging [] latest stopping last =>
        if winners.Perm latest ∧ winners.Pairwise (fun job job' => job.seq ≤ job'.seq)
        then some (s.goto (.landing winners stopping last)) else none
      | _ => none
  | .land result => match s.phase with
      | .landing (job :: winners) stopping last =>
        some { s with
          phase := .landing winners stopping last
          results := s.results.land job result }
      | _ => none
  | .finish => match s.phase with
      | .landing [] stopping last => some (s.goto
          (if last then .gone else if stopping then .draining [] else .receiving [] false))
      | _ => none
  | .join job => if job ∈ s.waiting then s.joinOne job else none
  | .takeErrors => some { s with results := { s.results with
      errors := []
      taken := s.results.taken ++ s.results.errors } }

end Steps

end Kinewright.Sidecar
