import Kinewright.Lib.Fifo
import Kinewright.Media.Calls

/-!
# Frame-thread permits

`PermitBook` of `sched.rs`, and the lane around it: the readers' threads and the preview act on the
scheduler under its lock and on the book under another. The two locks are never held together, so an
operation on both is two events, and what a post cancels may reach the book at any later time.
-/

namespace Kinewright.Media

/-! ## The book -/

/-- `CANCELLED_CAP`. -/
def cancelledCap : ℕ := 64

/-- `PermitBook`: a pool of frame threads that only readers hold, granted strictly in order. -/
structure PermitBook where
  pool : ℕ
  held : KeyedMap ℕ ℕ
  tickets : List (ℕ × ℕ)
  live : Finset ℕ
  cancelled : Finset ℕ
  shutdown : Bool

/-- `Poll`: a queued request's outcome. -/
inductive Poll
  | granted (permits : ℕ)
  | wait
  | cancelled
deriving DecidableEq

namespace PermitBook

def new (pool : ℕ) : PermitBook where
  pool := max pool 1
  held := .empty
  tickets := []
  live := ∅
  cancelled := ∅
  shutdown := false

/-- `in_use`: the permits held by readers. -/
def inUse (b : PermitBook) : ℕ := b.held.total id

/-- `held`: the permits that the reader holds. -/
def heldBy (b : PermitBook) (id : ℕ) : ℕ := (b.held.get? id).getD 0

/-- The readers that queue, in order. -/
def ticketIds (b : PermitBook) : List ℕ := b.tickets.map Prod.fst

/-- `enqueue`: queue the reader for `want` permits, behind every waiter. -/
def enqueue (b : PermitBook) (id want : ℕ) : PermitBook :=
  if id ∈ b.ticketIds then b else { b with tickets := b.tickets ++ [(id, max want 1)] }

/-- The request of the reader leaves the queue. -/
def dropTicket (b : PermitBook) (id : ℕ) : PermitBook :=
  { b with tickets := b.tickets.filter fun ticket => ticket.1 ≠ id }

/-- `poll`: only the head is granted, once a permit is free. A cancelled or stopped request leaves
the queue. -/
def poll (b : PermitBook) (id : ℕ) : Poll × PermitBook :=
  if b.shutdown ∨ id ∈ b.cancelled then
    -- a stopped request is not asked whether it was cancelled
    let cancelled := if b.shutdown then b.cancelled else b.cancelled.erase id
    (.cancelled, { b with cancelled }.dropTicket id)
  else
    match b.tickets with
    | (head, want) :: tickets =>
      let free := b.pool - b.inUse
      if head = id ∧ 0 < free then
        (.granted (min want free), { b with tickets, held := b.held.insert id (min want free) })
      else (.wait, b)
    | [] => (.wait, b)

/-- `join`: the reader starts. -/
def join (b : PermitBook) (id : ℕ) : PermitBook := { b with live := insert id b.live }

/-- `BTreeSet::pop_first`. -/
def popFirst (ids : Finset ℕ) : Finset ℕ := ids.filter fun id => ∃ low ∈ ids, low < id

/-- `cancel`: cancel the reader's request. Nothing happens once it exited. -/
def cancel (b : PermitBook) (id : ℕ) : PermitBook :=
  if id ∉ b.live then b
  else
    let kept := if cancelledCap ≤ b.cancelled.card ∧ id ∉ b.cancelled then popFirst b.cancelled
      else b.cancelled
    { b with cancelled := insert id kept }

def release (b : PermitBook) (id : ℕ) : PermitBook := { b with held := b.held.erase id }

/-- `forget`: the reader exited, and nothing of it stays. -/
def forget (b : PermitBook) (id : ℕ) : PermitBook :=
  { b with
    live := b.live.erase id
    held := b.held.erase id
    cancelled := b.cancelled.erase id }.dropTicket id

end PermitBook

/-! ## The lane -/

/-- Where a reader's thread is between its critical sections. -/
inductive Phase
  /-- The reader does not exist yet, or has exited. -/
  | absent
  /-- The reader has a slot but no thread. -/
  | unborn
  /-- The thread decodes, waits for work or is about to ask for its next step. -/
  | running
  /-- The thread was told to open a decoder and has not queued yet. -/
  | opening (want : ℕ)
  /-- The thread waits for permits. -/
  | waiting
  /-- The thread left the wait and has not told the scheduler. -/
  | granted (permits : Option ℕ)
  /-- The thread left the wait because the authority of its source is gone. Its ticket stays. -/
  | revoked
  /-- The scheduler has been told that, and the thread is about to leave. -/
  | barred
  /-- The thread was told to close its decoder. -/
  | closing
  /-- The thread gave its permits back and has not told the scheduler. -/
  | released
  /-- The thread leaves its loop, perhaps with its ticket still in the queue. -/
  | exiting (queued : Bool)
  /-- The book forgot the reader, and the scheduler has not been told. -/
  | forgotten
deriving DecidableEq

/-- The lane: the scheduler, the book, where each reader's thread is, the cancels that posts have
handed out, and what has become of the tickets, which nothing reads. -/
structure Lane (K F E : Type) where
  readers : Readers K F E
  book : PermitBook
  phase : ℕ → Phase
  cancels : Finset ℕ
  log : List (Fifo.Event ℕ)

inductive LaneEvent (K F E : Type)
  /-- A call of the preview, or of a reader that runs. -/
  | call (call : Call K F E)
  | join (id : ℕ)
  | enqueue (id : ℕ)
  | poll (id : ℕ)
  /-- The authority of the source is gone while the thread waits. -/
  | revoke (id : ℕ)
  | granted (id now : ℕ)
  | release (id : ℕ)
  | closed (id : ℕ)
  /-- The authority of the source is gone: the reader fails its times and leaves. -/
  | refuse (id : ℕ) (error : E)
  /-- The thread panics, or cannot be started. -/
  | unwind (id : ℕ)
  | forget (id : ℕ)
  /-- `Exit`: the scheduler is told, with an error if the thread unwinds. -/
  | exited (id : ℕ) (error : Option E)
  /-- A cancel that a post handed out reaches the book. -/
  | cancel (id : ℕ)
  | shutdown

/-- The reader that makes a call. -/
def Call.reader {K F E : Type} : Call K F E → Option ℕ
  | .next id _ _ | .deliver id _ _ _ _ | .refilledExact id _ _ _ _ | .stopped id _ => some id
  | _ => none

/-- Whether the call is an event of its own. -/
def Call.separate {K F E : Type} : Call K F E → Bool
  | .granted _ _ _ | .closed _ | .failStart _ _ | .exited _ => true
  | _ => false

/-- Where the thread is after its poll. -/
def Poll.phase : Poll → Phase
  | .granted permits => .granted (some permits)
  | .cancelled => .granted none
  | .wait => .waiting

/-- What becomes of the reader's ticket at its poll. -/
def Poll.events (id : ℕ) : Poll → List (Fifo.Event ℕ)
  | .granted _ => [.granted id]
  | .cancelled => [.withdrawn id]
  | .wait => []

/-- Where the thread is after the step that it was told. -/
def Next.phase : Next → Phase
  | .openFor want => .opening want
  | .close => .closing
  | .retire => .exiting false
  | .decode _ _ _ _ _ _ | .discard _ _ | .wait _ => .running

namespace Lane

variable {K F E : Type} [DecidableEq K] [Weighed F]

/-- `Lane::new`. -/
def new (parallelism budget : ℕ) : Lane K F E where
  readers := .new parallelism budget
  book := .new parallelism
  phase _ := .absent
  cancels := ∅
  log := []

/-- The reader's thread is somewhere else. -/
def moveTo (l : Lane K F E) (id : ℕ) (phase : Phase) : Lane K F E :=
  { l with phase := fun id' => if id' = id then phase else l.phase id' }

/-- A post's cancels are to be delivered, and its new readers to be started. -/
def take (l : Lane K F E) (posted : Posted K F E) : Lane K F E :=
  { l with
    cancels := l.cancels ∪ posted.cancel.toFinset
    phase := fun id => if id ∈ posted.spawn.map Prod.fst then .unborn else l.phase id }

/-- What the caller does with the answer. -/
def answer (l : Lane K F E) (call : Call K F E) : Answer K F E → Lane K F E
  | .next step => (call.reader.map fun id => l.moveTo id step.phase).getD l
  | .posted posted | .forgot _ posted => l.take posted
  | .done | .delivered _ _ | .admission _ | .adopted _ _ | .frames _ => l

/-- One event of the lane. `none` where a thread is not there, or the source panics. -/
def step (l : Lane K F E) : LaneEvent K F E → Option (Lane K F E)
  | .call call => if call.separate ∨ ∃ id ∈ call.reader, l.phase id ≠ .running then none
    else (l.readers.call call).map fun result => { l with readers := result.2 }.answer call result.1
  | .join id =>
    if l.phase id = .unborn then some ({ l with book := l.book.join id }.moveTo id .running)
    else none
  | .enqueue id =>
    match l.phase id with
    | .opening want =>
      some ({ l with
        book := l.book.enqueue id want
        log := if id ∈ l.book.ticketIds then l.log else l.log ++ [Fifo.Event.queued id] }.moveTo id
          .waiting)
    | _ => none
  | .poll id =>
    if l.phase id = .waiting then
      let (outcome, book) := l.book.poll id
      some ({ l with book, log := l.log ++ outcome.events id }.moveTo id outcome.phase)
    else none
  | .revoke id =>
    if l.phase id = .waiting then
      some ({ l with book := l.book.cancel id }.moveTo id .revoked)
    else none
  | .granted id now =>
    match l.phase id with
    | .granted permits =>
      some ({ l with readers := l.readers.granted id permits now }.moveTo id .running)
    | .revoked => some ({ l with readers := l.readers.granted id none now }.moveTo id .barred)
    | _ => none
  | .release id =>
    if l.phase id = .closing then
      some ({ l with book := l.book.release id }.moveTo id .released)
    else none
  | .closed id =>
    if l.phase id = .released then
      some ({ l with readers := l.readers.closed id }.moveTo id .running)
    else none
  | .refuse id error =>
    if l.phase id = .running ∨ l.phase id = .barred then
      some ({ l with readers := l.readers.failStart id error }.moveTo id (.exiting (l.phase id = Phase.barred)))
    else none
  | .unwind id => if l.phase id = .running then some (l.moveTo id (.exiting false)) else none
  | .forget id =>
    match l.phase id with
    | .exiting _ =>
      some ({ l with
        book := l.book.forget id
        log := l.log ++ [Fifo.Event.withdrawn id] }.moveTo id .forgotten)
    | _ => none
  | .exited id error =>
    if l.phase id = .forgotten then
      let readers := match error with
        | some error => l.readers.failStart id error
        | none => l.readers.exited id
      some ({ l with readers }.moveTo id .absent)
    else none
  | .cancel id => if id ∈ l.cancels then some { l with book := l.book.cancel id } else none
  | .shutdown => some { l with book := { l.book with shutdown := true } }

/-- The lane after the events. -/
def run (l : Lane K F E) : List (LaneEvent K F E) → Option (Lane K F E)
  | [] => some l
  | event :: events => (l.step event).bind fun l => l.run events

end Lane

end Kinewright.Media
