import Kinewright.Media.Post

/-!
# The readers' steps

What a reader does under the lock between two decodes (`next` with `work_for` and `decode`), what
its results do to the rings and the plan (`deliver`, `stopped`, `refilled_exact`), and how it leaves
(`fail_start`, `exited`).

A decode in flight outlives the plan that started it. Its result is kept while the current plan
wants it, and its failure counts only for the plan version that started it (H-3).
-/

namespace Kinewright.Media

/-- The largest `usize`. -/
def usizeMax : ℕ := 2 ^ 64 - 1

namespace Slot

variable {K : Type}

/-- The start of the window that the reader refills if it decodes this time. -/
def refillFrom (slot : Slot K) (time : ℤ) : Option ℤ :=
  slot.plan.window.bind fun (start, t) => if t = time then some start else none

/-- Whether decoding this time converts a frame that the decoder keeps. -/
def converts (slot : Slot K) (time : ℤ) : Bool := slot.refillFrom time = none ∧ time ∈ slot.retained

/-- The kept times that decoding this time drops. -/
def drops (slot : Slot K) (time : ℤ) : Finset ℤ :=
  if slot.refillFrom time = none ∧ time ∉ slot.retained then slot.retained else ∅

/-- Whether decoding this time is a merged region's backward seek. -/
def rewinds (slot : Slot K) (time : ℤ) : Bool := slot.plan.merged ∧ slot.last.any fun last => time ≤ last

/-- The slot once it decodes a time. A refill's t decodes its window and keeps what the ring lacks,
a kept time converts, and anything else drops the kept. -/
def decode (slot : Slot K) (time : ℤ) (bytes : ℕ) (resident : ℤ → Bool) : Slot K :=
  { slot with
    state := .decoding time slot.plan.version
    flight := bytes
    last := some time
    floor := some time
    converting := slot.converts time
    retained := match slot.refillFrom time with
      | some start => ((Readers.timesFrom start time).filter fun t => ¬ resident t).toFinset
      | none => if time ∈ slot.retained then slot.retained.erase time else ∅
    discard := none
    discarding := 0
    dropping := ∅ }

/-- The slot of a reader that asks for its next step: a job that it was given has released its
charges, unless that job is still its decode. -/
def back (slot : Slot K) : Slot K :=
  if slot.state.flying = none then { slot with flight := 0, dispatched := ∅ } else slot

/-- The slot once its pending discard is dispatched. -/
def dispatch (slot : Slot K) : Slot K :=
  { slot with
    discard := none
    dispatched := slot.dropping
    dropping := ∅
    flight := slot.discarding
    discarding := 0 }

/-- Since when the reader has had nothing to do. -/
def since (slot : Slot K) (now : ℕ) : ℕ :=
  match slot.state with
  | .idle since => since
  | .budgetWait since => since
  | _ => now

/-- The slot of a reader whose decoder keeps nothing and drops nothing any more. -/
def bare (slot : Slot K) : Slot K := { slot with retained := ∅, dropping := ∅, dispatched := ∅ }

/-- The slot of a reader that closed its decoder. -/
def shut (slot : Slot K) : Slot K := { slot.bare with threads := 0, cursor := none, discard := none, discarding := 0 }

/-- The slot of a reader that decoded a time. -/
def finish (slot : Slot K) (now : ℕ) (time : ℤ) : Slot K :=
  { slot with
    flight := 0
    state := .idle now
    converting := false
    cursor := if slot.converting then slot.cursor else some (time + 1) }

/-- The slot of a reader whose decode failed: its decoder keeps nothing. -/
def lose (slot : Slot K) : Slot K := { slot.bare with flight := 0, converting := false }

/-- The slot of a reader that is not retiring and whose decode failed, perhaps a lookahead one. -/
def fail (slot : Slot K) (now : ℕ) (ahead : Bool) : Slot K :=
  { slot.lose with
    state := .idle now
    cursor := none
    lookaheadFailed := if ahead then some slot.plan.version else slot.lookaheadFailed }

/-- The slot of a reader whose refill kept only some of its window. -/
def keepOnly (slot : Slot K) (kept : Finset ℤ) : Slot K :=
  { slot with retained := slot.retained ∩ kept, dropping := slot.dropping ∩ kept }

/-- The slot of a reader whose plan starts at a time at the earliest. -/
def clip (slot : Slot K) (kept : ℤ) : Slot K :=
  { slot with
    plan := { slot.plan with
      required := slot.plan.required.filter fun time => kept ≤ time
      window := slot.plan.window.map fun window => (max window.1 kept, window.2) } }

/-- The slot of a reader whose plan requires some times no longer. -/
def shorten (slot : Slot K) (gone : Finset ℤ) : Slot K :=
  { slot with
    plan := { slot.plan with required := slot.plan.required.filter fun time => time ∉ gone } }

/-- The slot of a reader whose decode of a time stopped: it stands just before it. -/
def stop (slot : Slot K) (now : ℕ) : Slot K :=
  let slot := match slot.state with
    | .decoding time version =>
      { slot with
        last := some (time - 1)
        floor := if version = slot.plan.version then some (time - 1) else slot.floor }
    | _ => slot
  { slot.bare with
    flight := 0
    cursor := none
    converting := false
    state := if slot.state = .retiring then .retiring else .idle now }

end Slot

namespace Readers

variable {K F E : Type}

/-! ## Permits -/

/-- `granted`: the reader left `PermitWait` with its permits, or with none. -/
def granted (r : Readers K F E) (id : ℕ) (permits : Option ℕ) (now : ℕ) : Readers K F E :=
  r.updateSlot id fun slot =>
    { slot with
      threads := permits.getD 0
      cancelled := false
      state := if slot.state = .permitWait then .idle now else slot.state }

/-- `waiting`: a required region still waits for a reader. -/
def waiting (r : Readers K F E) : Bool := ¬ r.pending.isEmpty

variable [DecidableEq K]

/-- `closed`: the reader closed its decoder and released its permits. -/
def closed (r : Readers K F E) (id : ℕ) : Readers K F E :=
  match r.slot? id with
  | none => r
  | some slot =>
    ((r.updateSlot id Slot.shut).release slot.discarding).unkept slot.key slot.retained

/-! ## What to decode -/

omit [DecidableEq K] in
/-- Whether a frame or a failure is there for a time. -/
def resolved (r : Readers K F E) (key : K) (time : ℤ) : Bool :=
  r.rings.contains (key, time) || r.failures.contains (key, time)

omit [DecidableEq K] in
/-- `owed`: a required time of the reader's plan has neither a frame nor a failure. -/
def owed (r : Readers K F E) (id : ℕ) : Bool :=
  (r.slot? id).any fun slot => slot.plan.required.any fun time => ¬ r.resolved slot.key time

/-- Whether a reader of the source, other than `but`, decodes the time. -/
def flying (r : Readers K F E) (but : Option ℕ) (key : K) (time : ℤ) : Bool :=
  r.slots.any fun slot => but ≠ some slot.id ∧ slot.key = key ∧ slot.state.flying = some time

omit [DecidableEq K] in
/-- Whether the reader may start its first unresolved required time: it is reserved, and a refill's
t waits until its window is reserved too. -/
def startable (r : Readers K F E) (slot : Slot K) (time : ℤ) : Bool :=
  r.reserved.contains (slot.key, time) ∧ ((slot.refillFrom time).isSome → slot.plan.required.all fun t =>
      r.resolved slot.key t || r.reserved.contains (slot.key, t))

/-- The first lookahead time past the reader's position that nobody has. -/
def nextLookahead (r : Readers K F E) (slot : Slot K) : Option ℤ :=
  if slot.lookaheadFailed = some slot.plan.version then none
  else
    slot.plan.lookahead.find? fun time =>
      (slot.floor.all fun floor => floor < time) ∧ ¬ (r.resolved slot.key time ∨ r.flying (some slot.id) slot.key time)

/-- `lookahead_bytes`: the source's ring frames and decodes in flight that the job does not
require. -/
def lookaheadBytes [Weighed F] (r : Readers K F E) (key : K) : ℕ :=
  (r.rings.filter fun frame _ => frame.1 = key ∧ frame ∉ r.required).total Weighed.bytes + (r.slots.map fun slot =>
      if slot.key = key ∧ slot.state.flying.any fun time => (key, time) ∉ r.required then
        slot.flight
      else 0).sum

omit [DecidableEq K] in
/-- A source's share of the lookahead: (C − G − H) / n. -/
def share (r : Readers K F E) : ℕ := (r.budget - r.requiredBytes - r.generated) / max r.sizes.keys.card 1

/-- `admissible`: lookahead of the source may start, with live + f ≤ C − H. -/
def admissible [Weighed F] (r : Readers K F E) (key : K) : Bool :=
  let f := (r.sizes.get? key).getD 0
  ¬ r.draining ∧ r.live + f ≤ r.budget - r.requiredBytes ∧ r.lookaheadBytes key + f ≤ r.share

/-- A source's lookahead was refused, counted once per plan. -/
def starve (r : Readers K F E) (key : K) : Readers K F E :=
  if key ∈ r.starvedKeys then r
  else { r with starvedKeys := insert key r.starvedKeys, starved := r.starved + 1 }

/-- `work_for`: the next time of the reader's plan, and whether it is required. The error says
whether lookahead waits on the budget. -/
def workFor [Weighed F] (r : Readers K F E) (id : ℕ) : Except Bool (ℤ × Bool) × Readers K F E :=
  match r.slot? id with
  | none => (.error false, r)
  | some slot =>
    match slot.plan.required.find? fun time => ¬ r.resolved slot.key time with
    | some time => (if r.startable slot time then .ok (time, true) else .error false, r)
    | none =>
      match r.nextLookahead slot with
      | none => (.error false, r)
      | some time =>
        if r.admissible slot.key then (.ok (time, false), r)
        else (.error true, r.starve slot.key)

/-! ## One step -/

/-- The bytes of a decode: a required frame takes its reservation, a lookahead one reserves f. -/
def chargeDecode (r : Readers K F E) (key : K) (time : ℤ) (required : Bool) : ℕ × Readers K F E :=
  if required then
    ((r.reserved.get? (key, time)).getD 0,
      { r with reserved := r.reserved.erase (key, time) })
  else
    let f := (r.sizes.get? key).getD 0
    (f, (r.reserve f r.budget).2)

/-- The frames handed off that the decode of this time decodes again: a refill's window, or the
time itself. A conversion decodes nothing. -/
def decodedAgain (r : Readers K F E) (slot : Slot K) (time : ℤ) : Finset (K × ℤ) :=
  if slot.converts time then ∅
  else r.handoff.filter fun frame =>
    frame.1 = slot.key ∧ (slot.refillFrom time).getD time ≤ frame.2 ∧ frame.2 ≤ time

/-- `decode`: the reader starts decoding a time. -/
def decode (r : Readers K F E) (id : ℕ) (time : ℤ) (required : Bool) : Next × Readers K F E :=
  match r.slot? id with
  | none => (.retire, r)
  | some slot =>
    let (charged, r) := r.chargeDecode slot.key time required
    let bytes := charged + slot.discarding
    let again := r.decodedAgain slot time
    let resident (t : ℤ) := r.rings.contains (slot.key, t)
    let r := (r.updateSlot id fun slot => slot.decode time bytes resident).unkept slot.key
      (slot.drops time)
    (.decode time slot.plan.version bytes (slot.refillFrom time) ((r.sizes.get? slot.key).getD 0) slot.discard,
      { r with
        handoff := r.handoff \ again
        keptHandoffs := r.keptHandoffs + again.card
        mergedRewinds := r.mergedRewinds + if slot.rewinds time then 1 else 0 })

omit [DecidableEq K] in
/-- The reader retires. -/
def retire (r : Readers K F E) (id : ℕ) : Next × Readers K F E :=
  (.retire, r.updateSlot id fun slot => { slot with state := .retiring })

omit [DecidableEq K] in
/-- Whether a reader other than this one waits for permits. -/
def ticket (r : Readers K F E) (id : ℕ) : Bool := r.slots.any fun slot => slot.id ≠ id ∧ slot.state = .permitWait

omit [DecidableEq K] in
/-- Whether the reader has more permits than it wants while another has too few. -/
def shrinks (r : Readers K F E) (slot : Slot K) : Bool :=
  slot.threads > r.want ∧ (r.ticket slot.id ∨
    r.slots.any fun other => other.id ≠ slot.id ∧ 0 < other.threads ∧ other.threads < r.want)

omit [DecidableEq K] in
/-- Whether the reader has fewer permits than it wants while some are free. -/
def grows (r : Readers K F E) (slot : Slot K) : Bool :=
  0 < slot.threads ∧ slot.threads < r.want ∧ (r.slots.map Slot.threads).sum < r.pool

omit [DecidableEq K] in
/-- The end of `next`, for a reader with nothing to decode: its discard, rebalancing, retirement. -/
def idle (r : Readers K F E) (slot : Slot K) (blocked : Bool) (now : ℕ) : Next × Readers K F E :=
  match slot.discard with
  | some keep =>
    -- no reader idles holding discard charges
    (.discard keep slot.discarding, r.updateSlot slot.id Slot.dispatch)
  | none =>
    let since := slot.since now
    -- a required time that another reader decodes stays owed: its result may be stale and fail
    let quiet := since + quiescence ≤ now ∧ ¬ r.owed slot.id
    if r.shrinks slot ∨ r.grows slot then (.close, r)
    else if ((r.waiting ∨ r.ticket slot.id) ∧ slot.obsolete) ∨ quiet then r.retire slot.id
    else
      (.wait (if since + quiescence > now then since + quiescence else now + quiescence),
        r.updateSlot slot.id fun slot =>
          { slot with state := if blocked then .budgetWait since else .idle since })

/-- `next`: the reader's next step. -/
def next [Weighed F] (r : Readers K F E) (id now : ℕ) (shutdown : Bool) : Next × Readers K F E :=
  let (work, r) := r.workFor id
  match r.slot? id with
  | none => (.retire, r)
  | some slot =>
    let r := r.updateSlot id Slot.back
    if shutdown ∨ slot.state = .retiring then r.retire id
    else
      match work with
      | .ok (time, required) =>
        if slot.threads = 0 then
          (.openFor r.want, r.updateSlot id fun slot => { slot with state := .permitWait })
        -- a needed shrink comes before more lookahead
        else if r.shrinks slot ∧ ¬ required then (.close, r)
        else r.decode id time required
      | .error blocked => r.idle slot blocked now

/-! ## Results -/

/-- Whether the current plan keeps a decoded frame: it wants the time or a held window has it, and
while it drains it keeps required frames only. -/
def keepsFrame (r : Readers K F E) (key : K) (time : ℤ) : Bool :=
  (((r.windows.get? key).any fun (start, t) => start ≤ time ∧ time ≤ t) ∨
      (r.wanted.get? key).any fun wanted => time ∈ wanted) ∧
    ((key, time) ∈ r.required ∨ ¬ r.draining)

/-- A decoded frame reaches the ring, or is returned. -/
def keepFrame (r : Readers K F E) (key : K) (time : ℤ) (frame : F) : Option F × Readers K F E :=
  if r.keepsFrame key time then
    let bytes := (r.reserved.get? (key, time)).getD 0
    (r.rings.get? (key, time),
      { r with
        reserved := r.reserved.erase (key, time)
        rings := r.rings.insert (key, time) frame }.release bytes)
  else (some frame, r)

/-- A failure is kept if its plan version is the reader's current one and the time is required. -/
def keepFailure (r : Readers K F E) (slot : Slot K) (time : ℤ) (version : ℕ) (error : E) : Option E × Readers K F E :=
  if version = slot.plan.version ∧ (slot.key, time) ∈ r.required then
    ((r.failures.get? (slot.key, time)).map Prod.snd,
      { r with failures := r.failures.insert (slot.key, time) (version, error) })
  else (some error, r)

/-- `deliver`: the reader's result for a time that it decoded under a plan version. -/
def deliver (r : Readers K F E) (id : ℕ) (time : ℤ) (version : ℕ) (result : Except E F)
    (now : ℕ) : (Option F × Option E) × Readers K F E :=
  match r.slot? id, result with
  | none, .ok frame => ((some frame, none), r)
  | none, .error error => ((none, some error), r)
  | some slot, .ok frame =>
    -- a reader that retired while it decoded stays retiring, and its result comes back
    if slot.state = .retiring then
      ((some frame, none), r.updateSlot id fun slot => { slot with flight := 0 })
    else
      let (returned, r) := (r.updateSlot id fun slot => slot.finish now time).keepFrame slot.key time frame
      ((returned, none), r)
  | some slot, .error error =>
    if slot.state = .retiring then
      ((none, some error), (r.updateSlot id Slot.lose).unkept slot.key slot.retained)
    else
      let ahead : Bool := ¬ (version = slot.plan.version ∧ (slot.key, time) ∈ r.required) ∧ time ∈ slot.plan.lookahead
      let r := (r.updateSlot id fun slot => slot.fail now ahead).unkept slot.key slot.retained
      let (returned, r) := r.keepFailure slot time version error
      ((none, returned), r)

/-- `stopped`: the reader's decode stopped. -/
def stopped (r : Readers K F E) (id now : ℕ) : Readers K F E :=
  match r.slot? id with
  | none => r
  | some slot =>
    (r.updateSlot id fun slot => slot.stop now).unkept slot.key slot.retained

/-! ## Refills -/

/-- Frames leave the required set, and their reservations return. -/
def unrequire (r : Readers K F E) (key : K) (gone : Finset ℤ) : Readers K F E :=
  let (reserved, released) := takeReserved r.reserved fun frame _ =>
    frame.1 = key ∧ frame.2 ∈ gone
  { r with
    required := r.required.filter fun frame => ¬ (frame.1 = key ∧ frame.2 ∈ gone)
    reserved }.release released

/-- The held window of the source that ends at t starts at a time at the earliest. -/
def clipWindow (r : Readers K F E) (key : K) (t kept : ℤ) : Readers K F E :=
  { r with
    windows := r.windows.map fun source window =>
      if source = key ∧ window.2 = t then (max window.1 kept, window.2) else window }

/-- A current refill of t clips its window to what the decoder kept, the times at or above
`kept`. -/
def clip (r : Readers K F E) (slot : Slot K) (t kept : ℤ) : Readers K F E :=
  let gone := (slot.plan.required.filter fun time => time < kept).toFinset
  (((r.updateSlot slot.id fun slot => slot.clip kept).clipWindow slot.key t kept).unrequire slot.key gone).countRequired

/-- Whether a time is an optional continuation that nothing can give any more. -/
def unavailable (r : Readers K F E) (key : K) (time : ℤ) : Bool :=
  (key, time) ∈ r.continuation ∧ ¬ r.rings.contains (key, time) ∧
    ¬ r.slots.any fun slot => slot.key = key ∧ (time ∈ slot.retained ∨ time ∈ slot.dropping ∨
      time ∈ slot.dispatched ∨ slot.state.flying = some time)

/-- Every plan of the source requires some times no longer. -/
def shortenPlans (r : Readers K F E) (key : K) (gone : Finset ℤ) : Readers K F E :=
  { r with
    slots := r.slots.map fun slot => if slot.key = key then slot.shorten gone else slot
    pending := r.pending.map fun entry =>
      if entry.1 = key then
        (entry.1, { entry.2 with
          required := entry.2.required.filter fun time => time ∉ gone })
      else entry
    wanted := r.wanted.map fun source wanted => if source = key then wanted \ gone else wanted
    continuation := r.continuation.filter fun frame => ¬ (frame.1 = key ∧ frame.2 ∈ gone) }

/-- `shorten_unavailable`: the unavailable ones of the times leave every plan. -/
def shortenUnavailable (r : Readers K F E) (key : K) (absent : Finset ℤ) : Readers K F E :=
  let gone := absent.filter fun time => r.unavailable key time
  ((r.shortenPlans key gone).unrequire key gone).countRequired

/-- `refilled_exact`: the reader's refill of `t` kept the decoded frames `kept` of its window, from
`keptFrom`. A refill that a newer post superseded clips only what its reader keeps. -/
def refilledExact (r : Readers K F E) (id : ℕ) (t : ℤ) (version : ℕ) (keptFrom : Option ℤ)
    (kept : Finset ℤ) : Readers K F E :=
  match r.slot? id with
  | none => r
  | some slot =>
    if slot.state ≠ .retiring ∧ slot.state ≠ .decoding t version then r
    else
      let clipped := slot.retained \ kept
      let r := r.updateSlot id fun slot => slot.keepOnly kept
      if slot.state = .retiring then r.unkept slot.key clipped
      else if slot.plan.version = version then r.clip slot t (min (keptFrom.getD t) t)
      else (r.shortenUnavailable slot.key clipped).unkept slot.key clipped

/-! ## Admission -/

/-- `missing`: no frame, failure, reservation or decode in flight. -/
def missing (r : Readers K F E) (frame : K × ℤ) : Bool :=
  ¬ r.rings.contains frame ∧ ¬ r.failures.contains frame ∧ ¬ r.reserved.contains frame ∧ ¬ r.flying none frame.1 frame.2

/-- The body of the loop of `evict`: victims go until `need` bytes will be released. -/
def evict [Weighed F] (pinned : F → Bool) (r : Readers K F E) (need : ℕ) : List (K × ℤ) → List F × Readers K F E
  | [] => ([], r)
  | victim :: victims => if need = 0 then ([], r) else
      match (r.rings.get? victim).filter fun frame => victim ∉ r.required ∧ ¬ pinned frame with
      | none => evict pinned r need victims
      | some frame =>
        let (evicted, r) := evict pinned { r with rings := r.rings.erase victim }
          (need - Weighed.bytes frame) victims
        (frame :: evicted, r)

/-- `admit`: reserve the missing required frames and `generated` bytes at once, or drain. `none`
where the sum of the reservations overflows. -/
def admitRequired [Weighed F] (r : Readers K F E) (generated : ℕ) (pinned : F → Bool)
    (victims : List (K × ℤ)) : Option (Admission F × Readers K F E) :=
  let missing := r.required.filter fun frame => r.missing frame
  let q := ∑ frame ∈ missing, r.keptCharge frame.1 frame.2 + generated
  if q > usizeMax then none
  else
    match r.reserve q r.budget with
    | (true, reserved) =>
      some (.ready generated,
        { reserved with
          reserved := r.reserved.extend missing fun frame => r.keptCharge frame.1 frame.2
          draining := false })
    | (false, _) =>
      let stop := (r.slots.filter fun slot =>
        slot.state.flying.any fun time => (slot.key, time) ∉ r.required).map Slot.id
      let (evicted, r) := evict pinned { r with draining := true } (r.live + q - r.budget) victims
      some (.wait evicted stop, r)

/-! ## Leaving -/

/-- A reader leaves: its decoder closed with the frames that it kept and was to drop. -/
def leave (r : Readers K F E) (slot : Slot K) : Readers K F E :=
  ((r.removeSlot slot.id).release slot.discarding).unkept slot.key slot.retained

/-- `exited`. -/
def exited (r : Readers K F E) (id : ℕ) : Readers K F E :=
  match r.slot? id with
  | none => r
  | some slot => r.leave slot

/-- `fail_start`: the required times of a reader that could not start fail. -/
def failStart (r : Readers K F E) (id : ℕ) (error : E) : Readers K F E :=
  match r.slot? id with
  | none => r
  | some slot =>
    let failed := r.required.filter fun frame =>
      frame.1 = slot.key ∧ frame.2 ∈ slot.plan.required
    let r := { r with failures := r.failures.extend failed fun _ => (r.version, error) }
    r.leave slot

omit [DecidableEq K] in
/-- `retire_all`. -/
def retireAll (r : Readers K F E) : Readers K F E :=
  let slots := r.slots.map fun slot => { slot with state := .retiring }
  { r with slots, pending := [], reserved := .empty }.release (r.reserved.total id)

omit [DecidableEq K] in
/-- `forget`: the sources that are not kept leave, and their readers retire. -/
def forget (r : Readers K F E) (keep : K → Bool) : (List ℕ × Posted K F E) × Readers K F E :=
  let gone := r.slots.filter fun slot => ¬ keep slot.key
  let (reserved, released) := takeReserved r.reserved fun frame _ => ¬ keep frame.1
  let posted : Posted K F E :=
    { spawn := []
      cancel := (gone.filter fun slot => slot.state = .permitWait ∧ ¬ slot.cancelled).map Slot.id
      retired := ¬ gone.isEmpty
      frames := (r.rings.filter fun frame _ => ¬ keep frame.1).values
      errors := ((r.failures.filter fun frame _ => ¬ keep frame.1).map fun _ failure =>
        failure.2).values }
  let slots := r.slots.map fun slot =>
    if keep slot.key then slot
    else
      { slot with
        state := .retiring
        cancelled := slot.cancelled || slot.state = .permitWait }
  let r : Readers K F E :=
    { r with
      slots
      reserved
      rings := r.rings.filter fun frame _ => keep frame.1
      failures := r.failures.filter fun frame _ => keep frame.1
      required := r.required.filter fun frame => keep frame.1
      wanted := r.wanted.filter fun key _ => keep key
      sizes := r.sizes.filter fun key _ => keep key
      pending := r.pending.filter fun entry => keep entry.1
      starvedKeys := r.starvedKeys.filter fun key => keep key }
  ((gone.map Slot.id, posted), r.release released)

/-- `clear_cache`: while a job waits its required frames stay. Otherwise an empty plan is posted and
every source is forgotten. -/
def clearCache (r : Readers K F E) (active : Bool) (now : ℕ) : (List ℕ × Posted K F E) × Readers K F E :=
  if active then
    (([],
        { spawn := []
          cancel := []
          retired := false
          frames := (r.rings.filter fun frame _ => frame ∉ r.required).values
          errors := 0 }),
      { r with rings := r.rings.filter fun frame _ => frame ∈ r.required })
  else
    let (posted, r) := r.post [] .empty 0 now
    let ((retired, forgot), r) := r.forget fun _ => false
    ((retired,
        { posted with
          cancel := posted.cancel ++ forgot.cancel
          retired := posted.retired || forgot.retired
          frames := posted.frames + forgot.frames
          errors := posted.errors + forgot.errors }),
      r)

omit [DecidableEq K] in
/-- `clear_rings`: every ring frame, removed. -/
def clearRings (r : Readers K F E) : Multiset F × Readers K F E := (r.rings.values, { r with rings := .empty })

end Readers

end Kinewright.Media
