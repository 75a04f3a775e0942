import Kinewright.Accounting.Record
import Kinewright.Lib.Lists

/-!
# Validating and changing an accounting record

A call on a record or a task returns a result and leaves a state behind, also where it refuses.
`validateSuccessor` is what the publisher asks of a record before it is kept.
-/

namespace Kinewright.Accounting

open Fallible Json

/-- `u64::checked_add`. -/
def checkedAdd (a b : UInt64) : Option UInt64 := if a.toNat + b.toNat < 2 ^ 64 then some (a + b) else none

/-- `u64::checked_sub`. -/
def checkedSub (a b : UInt64) : Option UInt64 := if b ≤ a then some (a - b) else none

/-- `u64::saturating_sub`. -/
def saturatingSub (a b : UInt64) : UInt64 := if b ≤ a then a - b else 0

/-- `u8::saturating_add`. -/
def saturatingAdd (a b : UInt8) : UInt8 := if a.toNat + b.toNat < 2 ^ 8 then a + b else 255

theorem checkedAdd_eq_some {x y z : UInt64} : checkedAdd x y = some z ↔ z.toNat = x.toNat + y.toNat := by
  rw [checkedAdd]
  split
  · rename_i hfits
    rw [Option.some.injEq, ← UInt64.toNat_inj, UInt64.toNat_add, Nat.mod_eq_of_lt hfits]
    exact eq_comm
  · have hlt := z.toNat_lt
    constructor
    · intro h
      cases h
    · intro h
      omega

theorem le_of_checkedAdd {x y z : UInt64} (h : checkedAdd x y = some z) : x ≤ z := by
  rw [checkedAdd_eq_some] at h
  rw [UInt64.le_iff_toNat_le]
  omega

theorem toNat_max (a b : UInt64) : (max a b).toNat = max a.toNat b.toNat := by
  show (if a ≤ b then b else a).toNat = max a.toNat b.toNat
  simp only [UInt64.le_iff_toNat_le]
  split
  · omega
  · omega

theorem le_max_left (a b : UInt64) : a ≤ max a b := by
  rw [UInt64.le_iff_toNat_le, toNat_max]
  exact Nat.le_max_left _ _

/-- Sixty-four hexadecimal digits. -/
def isFailureDigest (failure : String) : Prop := failure.utf8ByteSize = 64 ∧ (utf8 failure).all isAsciiHexdigit

instance : DecidablePred isFailureDigest := fun _ => instDecidableAnd

/-! ## Usage -/

/-- The six categories of usage, in order. -/
def UsageValues.values (v : UsageValues) : List (Option UInt64) :=
  [v.input, v.output, v.cacheRead, v.cacheWrite, v.reasoning, v.costMicros]

/-- `UsageValues::from_values`. -/
def UsageValues.fromValues (v : List (Option UInt64)) : UsageValues where
  input := v.getD 0 none
  output := v.getD 1 none
  cacheRead := v.getD 2 none
  cacheWrite := v.getD 3 none
  reasoning := v.getD 4 none
  costMicros := v.getD 5 none

/-- What a turn has used: by category, the value and whether every sample covers it. -/
structure Turn where
  values : List (Option UInt64 × Bool)
  ordinal : UInt64
  finished : Bool
  cacheIncluded : Bool
  reasoningIncluded : Bool

/-- A sample's value of one category, into what the turn has of it. -/
def Turn.take (mode : UsageMode) (old : Option UInt64 × Bool) :
    Option UInt64 → Except AccountingRefusal (Option UInt64 × Bool)
  | none => .ok (old.1, false)
  | some value => match mode with
    | .incremental => do
      let sum ← okOr .capacity (checkedAdd (old.1.getD 0) value)
      .ok (some sum, old.2)
    | .cumulative => .ok (some (max (old.1.getD 0) value), old.2 || old.1.getD 0 ≤ value)

def Turn.takeAll (mode : UsageMode) : List (Option UInt64 × Bool) → List (Option UInt64) →
    Except AccountingRefusal (List (Option UInt64 × Bool))
  | old :: olds, value :: values => do
    let new ← Turn.take mode old value
    let news ← Turn.takeAll mode olds values
    .ok (new :: news)
  | _, _ => .ok []

/-- A turn with one sample more. -/
def Turn.step (turn : Turn) (sample : UsageSample) : Except AccountingRefusal Turn := do
  refuse (sample.ordinal ≤ turn.ordinal ∨ sample.inputIncludesCache ≠ turn.cacheIncluded ∨
    sample.outputIncludesReasoning ≠ turn.reasoningIncluded) .invalid
  let values ← Turn.takeAll sample.mode turn.values sample.values.values
  .ok { turn with values, ordinal := sample.ordinal, finished := sample.complete }

def Turn.fresh (sample : UsageSample) : Turn where
  values := List.replicate 6 (none, true)
  ordinal := 0
  finished := false
  cacheIncluded := sample.inputIncludesCache
  reasoningIncluded := sample.outputIncludesReasoning

/-- The sample, in the turns by attempt and turn in ascending order. -/
def takeSample (sample : UsageSample) : List ((SessionId × UInt64) × Turn) →
    Except AccountingRefusal (List ((SessionId × UInt64) × Turn))
  | [] => do
    let turn ← (Turn.fresh sample).step sample
    .ok [((sample.attempt, sample.turn), turn)]
  | (key, turn) :: rest => if (sample.attempt, sample.turn) = key then do
      let turn ← turn.step sample
      .ok ((key, turn) :: rest)
    else if sample.attempt < key.1 ∨ sample.attempt = key.1 ∧ sample.turn < key.2 then do
      let fresh ← (Turn.fresh sample).step sample
      .ok (((sample.attempt, sample.turn), fresh) :: (key, turn) :: rest)
    else do
      let rest ← takeSample sample rest
      .ok ((key, turn) :: rest)

/-- The turns of the samples. An identified event counts once. -/
def takeSamples (before : List UsageSample) (turns : List ((SessionId × UInt64) × Turn)) :
    List UsageSample → Except AccountingRefusal (List ((SessionId × UInt64) × Turn))
  | [] => .ok turns
  | sample :: samples => do
    refuse (∃ old ∈ before, old.attempt = sample.attempt ∧ old.turn = sample.turn ∧ old.event = sample.event) .scope
    let turns ← takeSample sample turns
    takeSamples (before ++ [sample]) turns samples

/-- The known values with a turn's added. -/
def addKnown : List (Option UInt64) → List (Option UInt64 × Bool) → Except AccountingRefusal (List (Option UInt64))
  | known :: knowns, (none, _) :: values => do
    let knowns ← addKnown knowns values
    .ok (known :: knowns)
  | known :: knowns, (some value, _) :: values => do
    let sum ← okOr .capacity (checkedAdd (known.getD 0) value)
    let knowns ← addKnown knowns values
    .ok (some sum :: knowns)
  | _, _ => .ok []

/-- Whether the turn is finished and says a category in every sample. -/
def Turn.says (turn : Turn) (value : Option UInt64 × Bool) : Bool := turn.finished && value.2 && value.1.isSome

/-- The categories that are counted as tokens: what is included in another is not counted twice. -/
def Turn.tokenIndices (turn : Turn) : List ℕ :=
  [0, 1] ++ (if turn.cacheIncluded then [] else [2, 3]) ++ (if turn.reasoningIncluded then [] else [4])

def addTokens (turn : Turn) (totals : UInt64 × Bool) : List ℕ → Except AccountingRefusal (UInt64 × Bool)
  | [] => .ok totals
  | index :: indices => do
    let value := turn.values.getD index (none, false)
    let tokens ← okOr .capacity (checkedAdd totals.1 (value.1.getD 0))
    addTokens turn (tokens, totals.2 && turn.says value) indices

def addTurns (known : List (Option UInt64)) (complete : List Bool) (tokens : UInt64 × Bool) :
    List Turn → Except AccountingRefusal UsageTotals
  | [] => .ok {
      known := .fromValues known
      complete
      tokenLowerBound := tokens.1
      tokensComplete := tokens.2 }
  | turn :: turns => do
    let known ← addKnown known turn.values
    let tokens ← addTokens turn tokens turn.tokenIndices
    addTurns known (List.zipWith (fun old value => old && turn.says value) complete turn.values) tokens turns

/-- Replay the bounded identified samples. Missing categories remain unavailable. -/
def normalize (samples : List UsageSample) : Except AccountingRefusal UsageTotals := do
  refuse (usageEvents < samples.length) .capacity
  let turns ← takeSamples [] [] samples
  addTurns (List.replicate 6 none) (List.replicate 6 (turns ≠ [])) (0, turns ≠ []) (turns.map Prod.snd)

/-! ## Validation -/

def ProviderMetadata.validateSelection (provider : ProviderMetadata) : Except AccountingRefusal Unit :=
  all (fun selection =>
    refuse (selection.connector.utf8ByteSize = 0 ∨ 256 < selection.connector.utf8ByteSize ∨
      selection.model.utf8ByteSize = 0 ∨ 256 < selection.model.utf8ByteSize ∨
      64 < selection.options.length ∨
      (∃ option ∈ selection.options, option.1.utf8ByteSize = 0 ∨ 256 < option.1.utf8ByteSize ∨
        1024 < option.2.utf8ByteSize) ∨
      ¬ (selection.options.map Prod.fst).Nodup) .invalid) [provider.requested, provider.resolved]

def SendConsumption.validate (task : TaskAccounting) (before : List SendConsumption)
    (send : SendConsumption) : Except AccountingRefusal Unit := do
  reference send.payload
  refuse (256 * 1024 < send.payload.byteLength ∨ send.command.sequence = 0 ∨ send.turn = 0 ∨
    (¬ ∃ p ∈ task.providers, p.attempt = send.attempt) ∨
    ∃ s ∈ before, s.command = send.command ∨ s.attempt = send.attempt ∧ s.turn = send.turn) .scope

def ProviderMetadata.validate (before : List ProviderMetadata) (provider : ProviderMetadata) :
    Except AccountingRefusal Unit := do
  refuse ((∃ p ∈ before, p.attempt = provider.attempt) ∨ provider.cliVersion.utf8ByteSize = 0 ∨
    256 < provider.cliVersion.utf8ByteSize) .invalid
  provider.validateSelection

def RepairCount.validate (before : List RepairCount) (repair : RepairCount) : Except AccountingRefusal Unit :=
  refuse (2 < repair.rounds ∨ 2 < repair.repeated ∨ ¬ isFailureDigest repair.lastFailure ∨
    ∃ r ∈ before, r.delivery = repair.delivery ∧ r.attempt = repair.attempt) .invalid

def TaskAccounting.validate (before : List TaskAccounting) (task : TaskAccounting) : Except AccountingRefusal Unit := do
  refuse (∃ old ∈ before, old.task = task.task) .scope
  refuse (taskSends < task.sends.length ∨ taskSends < task.providers.length ∨
    usageEvents < task.usage.length ∨ maxItems < task.repairs.length) .capacity
  refuse (2 < task.repeatedFailures ∨ ∃ s ∈ task.lastFailure, ¬ isFailureDigest s) .invalid
  refuse (task.tokenLimit = some 0 ∨ ∃ s ∈ task.waitReason, 1024 < s.utf8ByteSize) .invalid
  allAfter (SendConsumption.validate task) [] task.sends
  allAfter ProviderMetadata.validate [] task.providers
  all (fun sample => refuse (sample.event.utf8ByteSize = 0 ∨ 256 < sample.event.utf8ByteSize ∨
    sample.ordinal = 0 ∨ ¬ ∃ p ∈ task.providers, p.attempt = sample.attempt) .invalid) task.usage
  let totals ← normalize task.usage
  refuse (task.totals ≠ totals) .invalid
  allAfter RepairCount.validate [] task.repairs

def validateArchive (before : List ObjectRef) (archive : ObjectRef) : Except AccountingRefusal Unit := do
  reference archive
  refuse (archive.recordKind ≠ .runIndex ∨ archive ∈ before) .invalid

namespace AccountingRecord

def validate (r : AccountingRecord) : Except AccountingRefusal Unit := do
  refuse (r.version ≠ 2 ∨ checkedSub r.deadlineUnixMs r.startUnixMs ≠ some runMillis ∨
    r.lastUnixMs < r.startUnixMs ∨ r.elapsedMs < r.lastUnixMs - r.startUnixMs ∨
    decide (r.revision = 0) ≠ r.previous.isNone ∨ r.revision.toNat ≠ r.history.length) .invalid
  refuse (recordBytesLimit < r.durableEventBytes.toNat) .capacity
  refuse (maxTasks < r.tasks.length ∨ historyRecords < r.history.length) .capacity
  allAfter validateArchive [] r.history
  all (fun previous => do
    reference previous
    refuse (previous.recordKind ≠ .runIndex) .invalid) r.previous.toList
  allAfter TaskAccounting.validate [] r.tasks
  let _ ← encode r recordBytesLimit
  .ok ()

/-- `AccountingRecord::new`. -/
def new (project : ProjectId) (run : SessionId) (now : UInt64) : Except AccountingRefusal AccountingRecord := do
  let deadline ← okOr .clockUncertain (checkedAdd now runMillis)
  .ok {
    version := 2
    project
    run
    previous := none
    history := []
    revision := 0
    startUnixMs := now
    deadlineUnixMs := deadline
    lastUnixMs := now
    elapsedMs := 0
    clockUncertain := false
    durableEventBytes := 0
    tasks := [] }

end AccountingRecord

section Successor

-- `sha256_bytes`, from a package outside the repository
variable (sha256 : List UInt8 → String)

/-- The reference of a record, by its canonical bytes with their tag. -/
def referenceOf {α : Type} [Serialize α] (kind : String) (record : α) : Except AccountingRefusal ObjectRef := do
  let payload := Json.record [("kind", field kind), ("record", field record)]
  let bytes ← encode (Json.record [("version", field (1 : UInt32)), ("payload", some payload)])
    recordBytesLimit
  .ok { sha256 := sha256 bytes, byteLength := .ofNat bytes.length, recordKind := .runIndex }

namespace AccountingRecord

def recordReference (r : AccountingRecord) : Except AccountingRefusal ObjectRef := referenceOf sha256 "accounting" r

def archive (r : AccountingRecord) : Except AccountingRefusal AccountingArchive := do
  r.validate
  let original ← r.recordReference sha256
  .ok { version := 1, original, record := r }

/-- The next record, with a reference to this one and to its archive. -/
def successor (r : AccountingRecord) : Except AccountingRefusal AccountingRecord := do
  r.validate
  let previous ← r.recordReference sha256
  refuse (historyRecords ≤ r.history.length) .capacity
  let archive ← r.archive sha256
  let archived ← referenceOf sha256 "accounting_archive" archive
  let revision ← okOr .capacity (checkedAdd r.revision 1)
  .ok { r with previous := some previous, history := r.history ++ [archived], revision }

end AccountingRecord

end Successor

/-! ## Calls on a task -/

namespace TaskAccounting

/-- A task as `add_task` makes it. -/
def fresh (task : SessionId) (tokenLimit : Option UInt64) : TaskAccounting where
  task
  tokenLimit
  sends := []
  providers := []
  usage := []
  totals := .default
  repairs := []
  lastFailure := none
  repeatedFailures := 0
  waitReason := none
  pause := none

/-- Whether a send of the list has no complete usage. -/
def outstandingOf (usage : List UsageSample) : List SendConsumption → Except AccountingRefusal Bool
  | [] => .ok false
  | send :: sends => do
    let totals ← normalize (usage.filter fun sample => sample.attempt = send.attempt ∧ sample.turn = send.turn)
    if totals.tokensComplete then outstandingOf usage sends else .ok true

def outstandingUsage (t : TaskAccounting) : Except AccountingRefusal Bool := outstandingOf t.usage t.sends

def selectProvider (t : TaskAccounting) (provider : ProviderMetadata) :
    Except AccountingRefusal Unit × TaskAccounting :=
  match t.providers.find? fun p => p.attempt = provider.attempt with
  | some old => (refuse (old ≠ provider) .scope, t)
  | none =>
    if taskSends ≤ t.providers.length then (.error .capacity, t)
    else (.ok (), { t with providers := t.providers ++ [provider] })

def checkPause (t : TaskAccounting) : Except AccountingRefusal Unit :=
  match t.pause with
  | some reason => .error reason
  | none => .ok ()

/-- The checks of a send whose command is new. -/
def checkSend (t : TaskAccounting) (send : SendConsumption) : Except AccountingRefusal Unit := do
  t.checkPause
  refuse t.waitReason.isSome .replan
  refuse (taskSends ≤ t.sends.length) .sends
  refuse (¬ ∃ p ∈ t.providers, p.attempt = send.attempt) .scope
  reference send.payload
  refuse (256 * 1024 < send.payload.byteLength) .capacity
  refuse (∃ cap ∈ t.tokenLimit, cap ≤ t.totals.tokenLowerBound) .tokens
  refuse (t.tokenLimit.isSome ∧ t.usage ≠ [] ∧ ¬ t.totals.tokensComplete) .usageUnavailable
  let outstanding ← if t.tokenLimit.isSome then t.outstandingUsage else .ok false
  refuse outstanding .usageUnavailable
  refuse (send.turn = 0 ∨ (∃ old ∈ t.sends, old.attempt = send.attempt ∧ old.turn = send.turn) ∨
    ∃ sample ∈ t.usage, sample.attempt = send.attempt ∧ sample.turn = send.turn) .scope

def consumeSend (t : TaskAccounting) (send : SendConsumption) : Except AccountingRefusal Unit × TaskAccounting :=
  match t.sends.find? fun old => old.command = send.command with
  | some old => (refuse (old ≠ send) .scope, t)
  | none =>
    match t.checkSend send with
    | .error reason => (.error reason, t)
    | .ok () => (.ok (), { t with sends := t.sends ++ [send] })

/-- A count of repairs of the delivery by the attempt. -/
def isRepairOf (delivery attempt : SessionId) (r : RepairCount) : Bool := r.delivery = delivery ∧ r.attempt = attempt

/-- How often in a row the task has failed as it fails now. -/
def repeatedWith (t : TaskAccounting) (failure : String) : UInt8 :=
  if t.lastFailure = some failure then min (saturatingAdd t.repeatedFailures 1) 2 else 1

/-- The counts of repairs, with one of the delivery by the attempt. -/
def repairsWith (t : TaskAccounting) (delivery attempt : SessionId) : List RepairCount :=
  if t.repairs.any (isRepairOf delivery attempt) then t.repairs
  else t.repairs ++ [{ delivery, attempt, rounds := 0, lastFailure := "", repeated := 0 }]

/-- One round more of a repair. -/
def nextRound (failure : String) (r : RepairCount) : RepairCount :=
  { r with
    rounds := r.rounds + 1
    repeated := if r.lastFailure = failure then saturatingAdd r.repeated 1 else 1
    lastFailure := failure }

def repair (t : TaskAccounting) (delivery attempt : SessionId) (failure : String) :
    Except AccountingRefusal Unit × TaskAccounting :=
  if ¬ isFailureDigest failure then (.error .invalid, t)
  else if t.pause = some .replan then (.error .replan, t)
  else
    let failed := { t with
      repeatedFailures := t.repeatedWith failure
      lastFailure := some failure }
    if t.repairs.any (isRepairOf delivery attempt) = false ∧ maxItems ≤ t.repairs.length then
      (.error .capacity, failed)
    else
      let counted := { failed with repairs := t.repairsWith delivery attempt }
      match counted.repairs.find? (isRepairOf delivery attempt) with
      | none => (.error .invalid, counted)
      | some r =>
        if 2 ≤ r.rounds then (.error .replan, { counted with pause := some .replan })
        else
          let repaired := { counted with
            repairs := counted.repairs.modifyFirst (isRepairOf delivery attempt) (nextRound failure) }
          if 2 ≤ repaired.repeatedFailures then
            (.error .replan, { repaired with pause := some .replan })
          else (.ok (), repaired)

/-- A sample appended, with the totals recomputed. -/
def appendUsage (t : TaskAccounting) (sample : UsageSample) : Except AccountingRefusal Unit × TaskAccounting :=
  match normalize (t.usage ++ [sample]) with
  | .error reason => (.error reason, t)
  | .ok totals => (.ok (), { t with usage := t.usage ++ [sample], totals })

end TaskAccounting

inductive TaskCall
  | selectProvider (provider : ProviderMetadata)
  | consumeSend (send : SendConsumption)
  | repair (delivery attempt : SessionId) (failure : String)
  | appendUsage (sample : UsageSample)

def TaskCall.call : TaskCall → TaskAccounting → Except AccountingRefusal Unit × TaskAccounting
  | .selectProvider provider, t => t.selectProvider provider
  | .consumeSend send, t => t.consumeSend send
  | .repair delivery attempt failure, t => t.repair delivery attempt failure
  | .appendUsage sample, t => t.appendUsage sample

/-! ## Calls on a record -/

namespace AccountingRecord

def checkClock (r : AccountingRecord) : Except AccountingRefusal Unit := do
  refuse r.clockUncertain .clockUncertain
  refuse (runMillis ≤ r.elapsedMs ∨ r.deadlineUnixMs ≤ r.lastUnixMs) .time

/-- Both wall time and an owner-measured monotonic delta can only spend time. -/
def observeClock (r : AccountingRecord) (now monotonicDelta : UInt64) (trusted : Bool) :
    Except AccountingRefusal Unit × AccountingRecord :=
  let certified := { r with
    clockUncertain := r.clockUncertain || !trusted || decide (now < r.lastUnixMs) }
  match checkedAdd r.elapsedMs monotonicDelta with
  | none => (.error .time, certified)
  | some elapsed =>
    let observed := { certified with
      elapsedMs := max elapsed (saturatingSub now r.startUnixMs)
      lastUnixMs := max r.lastUnixMs now }
    (observed.checkClock, observed)

def addTask (r : AccountingRecord) (task : SessionId) (tokenLimit : Option UInt64) :
    Except AccountingRefusal Unit × AccountingRecord :=
  match r.checkClock with
  | .error reason => (.error reason, r)
  | .ok () =>
    if maxTasks ≤ r.tasks.length then (.error .capacity, r)
    else if tokenLimit = some 0 ∨ task ∈ r.tasks.map TaskAccounting.task then (.error .invalid, r)
    else (.ok (), { r with tasks := r.tasks ++ [.fresh task tokenLimit] })

def consumeEventBytes (r : AccountingRecord) (bytes : UInt64) : Except AccountingRefusal Unit × AccountingRecord :=
  match checkedAdd r.durableEventBytes bytes with
  | none => (.error .capacity, r)
  | some next =>
    if recordBytesLimit < next.toNat then (.error .capacity, r)
    else (.ok (), { r with durableEventBytes := next })

/-- `task_mut`, and the call on the task. -/
def taskMut (r : AccountingRecord) (task : SessionId) (call : TaskCall) :
    Except AccountingRefusal Unit × AccountingRecord :=
  match r.tasks.find? fun t => t.task = task with
  | none => (.error .scope, r)
  | some t =>
    ((call.call t).1,
      { r with tasks := r.tasks.modifyFirst (fun t => t.task = task) fun t => (call.call t).2 })

end AccountingRecord

inductive Mutator
  | observeClock (now monotonicDelta : UInt64) (trusted : Bool)
  | addTask (task : SessionId) (tokenLimit : Option UInt64)
  | taskMut (task : SessionId) (call : TaskCall)
  | consumeEventBytes (bytes : UInt64)

def Mutator.call : Mutator → AccountingRecord → Except AccountingRefusal Unit × AccountingRecord
  | .observeClock now monotonicDelta trusted, r => r.observeClock now monotonicDelta trusted
  | .addTask task tokenLimit, r => r.addTask task tokenLimit
  | .taskMut task call, r => r.taskMut task call
  | .consumeEventBytes bytes, r => r.consumeEventBytes bytes

/-- The record after a call, whether it refused or not. -/
def AccountingRecord.step (r : AccountingRecord) (m : Mutator) : AccountingRecord := (m.call r).2

/-- The record after the calls. -/
def AccountingRecord.runAll (r : AccountingRecord) (ms : List Mutator) : AccountingRecord := ms.foldl step r

/-! ## What a successor must keep -/

/-- The sends, consumed again by the task one after another. -/
def TaskAccounting.resend (t : TaskAccounting) (sends : List SendConsumption) :
    Except AccountingRefusal TaskAccounting :=
  sends.foldlM (fun t send => (t.consumeSend send).1.map fun _ => (t.consumeSend send).2) t

namespace AccountingRecord

/-- What is kept of a task of the record before. -/
def validateKept (r : AccountingRecord) (old : TaskAccounting) : Except AccountingRefusal Unit := do
  let new ← okOr .scope (r.tasks.find? fun t => t.task = old.task)
  refuse (new.tokenLimit ≠ old.tokenLimit ∨ ¬ old.sends <+: new.sends ∨
    ¬ old.providers <+: new.providers ∨ ¬ old.usage <+: new.usage ∨
    (old.pause.isSome ∧ new.pause ≠ old.pause)) .scope
  all (fun repair => refuse (¬ ∃ r ∈ new.repairs, r.delivery = repair.delivery ∧
    r.attempt = repair.attempt ∧ repair.rounds ≤ r.rounds) .scope) old.repairs

/-- The task that the new sends are consumed by: the old one, or the new one before its sends. -/
def admittedBy (previous : AccountingRecord) (new : TaskAccounting) : TaskAccounting :=
  match previous.tasks.find? fun t => t.task = new.task with
  | some old => { old with providers := new.providers }
  | none => { new with sends := [], usage := [], totals := .default }

def validateSends (previous : AccountingRecord) (new : TaskAccounting) : Except AccountingRefusal Unit := do
  let admitted := previous.admittedBy new
  let _ ← admitted.resend (new.sends.drop admitted.sends.length)
  .ok ()

def validateSuccessor (sha256 : List UInt8 → String) (r previous : AccountingRecord) :
    Except AccountingRefusal Unit := do
  r.validate
  let expected ← previous.successor sha256
  refuse (r.project ≠ previous.project ∨ r.run ≠ previous.run ∨
    r.previous ≠ expected.previous ∨ r.history ≠ expected.history ∨
    r.revision ≠ expected.revision ∨ r.startUnixMs ≠ previous.startUnixMs ∨
    r.deadlineUnixMs ≠ previous.deadlineUnixMs ∨ r.lastUnixMs < previous.lastUnixMs ∨
    r.elapsedMs < previous.elapsedMs ∨ r.durableEventBytes < previous.durableEventBytes ∨
    (previous.clockUncertain ∧ ¬ r.clockUncertain)) .scope
  all r.validateKept previous.tasks
  all previous.validateSends r.tasks

end AccountingRecord

end Kinewright.Accounting
