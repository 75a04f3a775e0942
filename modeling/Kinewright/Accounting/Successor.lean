import Kinewright.Accounting.Mutators

/-!
# What the calls leave for the validator

Every call leaves a task later than it was: nothing that was spent is taken back. A send that was
consumed is consumed again from the record before, unless the task has been paused meanwhile.
-/

namespace Kinewright.Accounting

open Fallible List

namespace TaskAccounting

/-! ## Repairs -/

/-- Whether a failure pauses the task: it is the second of its kind in a row, or the delivery has
been repaired twice by the attempt. -/
def repairPauses (t : TaskAccounting) (delivery attempt : SessionId) (failure : String) : Prop :=
  isFailureDigest failure ∧ t.pause ≠ some .replan ∧
    (t.repairs.any (isRepairOf delivery attempt) ∨ t.repairs.length < maxItems) ∧
    ((∃ r ∈ t.repairs.find? (isRepairOf delivery attempt), 2 ≤ r.rounds) ∨
      t.lastFailure = some failure ∧ 1 ≤ t.repeatedFailures)

instance (t : TaskAccounting) (delivery attempt : SessionId) (failure : String) :
    Decidable (t.repairPauses delivery attempt failure) := by
  unfold repairPauses
  infer_instance

/-- Every count of repairs is still there, with no fewer rounds. -/
def RepairsKept (old new : List RepairCount) : Prop :=
  ∀ r ∈ old, ∃ r' ∈ new, r'.delivery = r.delivery ∧ r'.attempt = r.attempt ∧ r.rounds ≤ r'.rounds

theorem RepairsKept.refl (repairs : List RepairCount) : RepairsKept repairs repairs :=
  fun r hr => ⟨r, hr, rfl, rfl, UInt8.le_refl _⟩

theorem RepairsKept.trans {a b c : List RepairCount} (h : RepairsKept a b) (h' : RepairsKept b c) :
    RepairsKept a c := by
  intro r hr
  obtain ⟨r', hr', hdelivery, hattempt, hle⟩ := h r hr
  obtain ⟨r'', hr'', hdelivery', hattempt', hle'⟩ := h' r' hr'
  exact ⟨r'', hr'', hdelivery'.trans hdelivery, hattempt'.trans hattempt, UInt8.le_trans hle hle'⟩

/-- A count of failures in a row that is cut off at two. -/
theorem two_le_saturatingAdd_one (n : UInt8) : 2 ≤ min (saturatingAdd n 1) 2 ↔ 1 ≤ n := by
  have hmin (m : UInt8) : 2 ≤ min m 2 ↔ 2 ≤ m := by
    show 2 ≤ (if m ≤ 2 then m else 2) ↔ 2 ≤ m
    split
    · rfl
    · simp only [UInt8.le_refl, true_iff]
      exact (UInt8.le_total m 2).resolve_left ‹_›
  rw [hmin, saturatingAdd]
  split
  · rename_i h
    show 2 ≤ (n.toNat + 1) % 256 ↔ 1 ≤ n.toNat
    change n.toNat + 1 < 256 at h
    omega
  · rename_i h
    rw [UInt8.le_iff_toNat_le]
    show 2 ≤ 255 ↔ 1 ≤ n.toNat
    change ¬ n.toNat + 1 < 256 at h
    omega

variable {t : TaskAccounting}

theorem two_le_repeatedWith {failure : String} :
    2 ≤ t.repeatedWith failure ↔ t.lastFailure = some failure ∧ 1 ≤ t.repeatedFailures := by
  unfold repeatedWith
  by_cases h : t.lastFailure = some failure
  · rw [if_pos h]
    rw [and_iff_right h]
    exact two_le_saturatingAdd_one _
  · simp [h]

/-- The count that a repair goes by. -/
theorem find?_repairsWith (t : TaskAccounting) (delivery attempt : SessionId) :
    (t.repairsWith delivery attempt).find? (isRepairOf delivery attempt) =
      some ((t.repairs.find? (isRepairOf delivery attempt)).getD
        { delivery, attempt, rounds := 0, lastFailure := "", repeated := 0 }) := by
  unfold repairsWith
  rcases hfind : t.repairs.find? (isRepairOf delivery attempt) with _ | r
  · have hnone : t.repairs.any (isRepairOf delivery attempt) = false := by
      simpa using hfind
    simp [hnone, hfind, isRepairOf]
  · have hsome : t.repairs.any (isRepairOf delivery attempt) = true := by
      rw [any_eq_true]
      exact ⟨r, mem_of_find?_eq_some hfind, find?_some hfind⟩
    simp [hsome, hfind]

theorem repairsKept_repairsWith (t : TaskAccounting) (delivery attempt : SessionId) :
    RepairsKept t.repairs (t.repairsWith delivery attempt) := by
  intro r hr
  refine ⟨r, ?_, rfl, rfl, UInt8.le_refl _⟩
  unfold repairsWith
  split
  · exact hr
  · exact mem_append_left _ hr

theorem repairsKept_nextRound {repairs : List RepairCount} {delivery attempt : SessionId}
    (failure : String) {r : RepairCount} (hfind : repairs.find? (isRepairOf delivery attempt) = some r)
    (hlt : r.rounds < 2) : RepairsKept repairs
      (repairs.modifyFirst (isRepairOf delivery attempt) (nextRound failure)) := by
  intro a ha
  rcases mem_or_of_modifyFirst (p := isRepairOf delivery attempt) (f := nextRound failure) ha
    with hstays | ⟨hfirst, hchanged⟩
  · exact ⟨a, hstays, rfl, rfl, UInt8.le_refl _⟩
  · refine ⟨nextRound failure a, hchanged, rfl, rfl, ?_⟩
    rw [hfind] at hfirst
    cases hfirst
    have hnat : r.rounds.toNat < 2 := UInt8.lt_iff_toNat_lt.mp hlt
    show r.rounds ≤ r.rounds + 1
    show r.rounds.toNat ≤ (r.rounds.toNat + 1) % 256
    omega

/-- What a repair changes. -/
theorem repair_spec (t : TaskAccounting) (delivery attempt : SessionId) (failure : String) :
    ∃ repairs lastFailure repeatedFailures, RepairsKept t.repairs repairs ∧
      (t.repair delivery attempt failure).2 = { t with
        repairs, lastFailure, repeatedFailures
        pause := if t.repairPauses delivery attempt failure then some .replan else t.pause } := by
  unfold repair
  by_cases hdigest : isFailureDigest failure
  swap
  · have hstays : ¬ t.repairPauses delivery attempt failure := fun h => hdigest h.1
    rw [if_pos hdigest, if_neg hstays]
    exact ⟨_, _, _, .refl _, rfl⟩
  rw [if_neg (not_not_intro hdigest)]
  by_cases hpaused : t.pause = some .replan
  · have hstays : ¬ t.repairPauses delivery attempt failure := fun h => h.2.1 hpaused
    rw [if_pos hpaused, if_neg hstays]
    exact ⟨_, _, _, .refl _, rfl⟩
  rw [if_neg hpaused]
  by_cases hfull : t.repairs.any (isRepairOf delivery attempt) = false ∧ maxItems ≤ t.repairs.length
  · have hstays : ¬ t.repairPauses delivery attempt failure := by
      rintro ⟨-, -, hroom | hroom, -⟩
      · rw [hfull.1] at hroom
        cases hroom
      · omega
    simp only [if_pos hfull, if_neg hstays]
    exact ⟨_, _, _, .refl _, rfl⟩
  have hroom : t.repairs.any (isRepairOf delivery attempt) ∨ t.repairs.length < maxItems := by
    rw [not_and_or, Bool.not_eq_false] at hfull
    exact hfull.imp_right not_le.mp
  simp only [if_neg hfull, find?_repairsWith]
  have hkept := repairsKept_repairsWith t delivery attempt
  generalize hcount : (t.repairs.find? (isRepairOf delivery attempt)).getD _ = r
  have hfind := find?_repairsWith t delivery attempt
  rw [hcount] at hfind
  -- a new count starts at no rounds
  have hrounds : 2 ≤ r.rounds ↔
      ∃ r ∈ t.repairs.find? (isRepairOf delivery attempt), 2 ≤ r.rounds := by
    rw [← hcount]
    rcases t.repairs.find? (isRepairOf delivery attempt) with _ | r'
    · simp
    · simp
  by_cases htwice : 2 ≤ r.rounds
  · have hpauses : t.repairPauses delivery attempt failure :=
      ⟨hdigest, hpaused, hroom, .inl (hrounds.mp htwice)⟩
    rw [if_pos htwice, if_pos hpauses]
    exact ⟨_, _, _, hkept, rfl⟩
  rw [if_neg htwice]
  have hnext := hkept.trans (repairsKept_nextRound failure hfind (UInt8.not_le.mp htwice))
  by_cases hagain : 2 ≤ t.repeatedWith failure
  · have hpauses : t.repairPauses delivery attempt failure :=
      ⟨hdigest, hpaused, hroom, .inr (two_le_repeatedWith.mp hagain)⟩
    rw [if_pos hagain, if_pos hpauses]
    exact ⟨_, _, _, hnext, rfl⟩
  · have hstays : ¬ t.repairPauses delivery attempt failure := by
      rintro ⟨-, -, -, hrepeat | hrepeat⟩
      · exact htwice (hrounds.mpr hrepeat)
      · exact hagain (two_le_repeatedWith.mpr hrepeat)
    rw [if_neg hagain, if_neg hstays]
    exact ⟨_, _, _, hnext, rfl⟩

/-! ## What the other calls change -/

theorem selectProvider_spec (t : TaskAccounting) (provider : ProviderMetadata) :
    ∃ providers, t.providers <+: providers ∧ (t.selectProvider provider).2 = { t with providers } := by
  unfold selectProvider
  split
  · exact ⟨_, prefix_refl _, rfl⟩
  · split
    · exact ⟨_, prefix_refl _, rfl⟩
    · exact ⟨_, prefix_append _ _, rfl⟩

theorem appendUsage_spec (t : TaskAccounting) (sample : UsageSample) :
    ∃ usage totals, t.usage <+: usage ∧ (t.appendUsage sample).2 = { t with usage, totals } := by
  unfold appendUsage
  split
  · exact ⟨_, _, prefix_refl _, rfl⟩
  · exact ⟨_, _, prefix_append _ _, rfl⟩

/-- A send leaves the task alone, or its command is new and it passed the checks. -/
theorem consumeSend_spec (t : TaskAccounting) (send : SendConsumption) : (t.consumeSend send).2 = t ∨
      (t.sends.find? fun old => old.command = send.command) = none ∧ t.checkSend send = .ok () ∧
        (t.consumeSend send).2 = { t with sends := t.sends ++ [send] } := by
  unfold consumeSend
  split
  · exact .inl rfl
  · rename_i hnew
    split
    · exact .inl rfl
    · rename_i hcheck
      exact .inr ⟨hnew, hcheck, rfl⟩

variable {send : SendConsumption}

theorem pause_eq_none_of_checkSend (h : t.checkSend send = .ok ()) : t.pause = none := by
  rw [checkSend, bind_eq_ok] at h
  obtain ⟨⟨⟩, hpause, -⟩ := h
  unfold checkPause at hpause
  split at hpause
  · cases hpause
  · assumption

/-! ## Later states of a task -/

/-- A state of a task that calls have led to from the first one. -/
structure Later (base t : TaskAccounting) : Prop where
  task : t.task = base.task
  tokenLimit : t.tokenLimit = base.tokenLimit
  waitReason : t.waitReason = base.waitReason
  sends : base.sends <+: t.sends
  providers : base.providers <+: t.providers
  usage : base.usage <+: t.usage
  repairs : RepairsKept base.repairs t.repairs
  pause : t.pause = base.pause ∨ t.pause = some .replan

theorem Later.refl (t : TaskAccounting) : Later t t :=
  ⟨rfl, rfl, rfl, prefix_refl _, prefix_refl _, prefix_refl _, .refl _, .inl rfl⟩

theorem Later.trans {a b c : TaskAccounting} (h : Later a b) (h' : Later b c) : Later a c where
  task := h'.task.trans h.task
  tokenLimit := h'.tokenLimit.trans h.tokenLimit
  waitReason := h'.waitReason.trans h.waitReason
  sends := h.sends.trans h'.sends
  providers := h.providers.trans h'.providers
  usage := h.usage.trans h'.usage
  repairs := h.repairs.trans h'.repairs
  pause := by
    rcases h'.pause with hsame | hreplan
    · rw [hsame]
      exact h.pause
    · exact .inr hreplan

/-- Every call leads to a later state, whether it refuses or not. -/
theorem later_call (t : TaskAccounting) (call : TaskCall) : Later t (call.call t).2 := by
  cases call with
  | selectProvider provider =>
    obtain ⟨providers, hprefix, h⟩ := t.selectProvider_spec provider
    rw [TaskCall.call, h]
    exact { Later.refl t with providers := hprefix }
  | consumeSend send =>
    rw [TaskCall.call]
    rcases t.consumeSend_spec send with h | ⟨-, -, h⟩
    · rw [h]
      exact .refl t
    · rw [h]
      exact { Later.refl t with sends := prefix_append _ _ }
  | repair delivery attempt failure =>
    obtain ⟨repairs, lastFailure, repeated, hkept, h⟩ := t.repair_spec delivery attempt failure
    rw [TaskCall.call, h]
    refine { Later.refl t with repairs := hkept, pause := ?_ }
    by_cases hpauses : t.repairPauses delivery attempt failure
    · exact .inr (if_pos hpauses)
    · exact .inl (if_neg hpauses)
  | appendUsage sample =>
    obtain ⟨usage, totals, hprefix, h⟩ := t.appendUsage_spec sample
    rw [TaskCall.call, h]
    exact { Later.refl t with usage := hprefix }

/-! ## Sends that are consumed again -/

/-- Another task that the same sends are consumed by: it may have more providers. -/
structure Admits (b t : TaskAccounting) : Prop where
  pause : b.pause = t.pause
  waitReason : b.waitReason = t.waitReason
  tokenLimit : b.tokenLimit = t.tokenLimit
  totals : b.totals = t.totals
  usage : b.usage = t.usage
  sends : b.sends = t.sends
  providers : t.providers ⊆ b.providers

theorem Admits.checkSend {b : TaskAccounting} (h : Admits b t)
    (hcheck : t.checkSend send = .ok ()) : b.checkSend send = .ok () := by
  obtain ⟨hpause, hwait, hlimit, htotals, husage, hsends, hproviders⟩ := h
  simp only [TaskAccounting.checkSend, checkPause, outstandingUsage, hpause, hwait, hlimit, htotals,
    husage, hsends, bind_eq_ok, refuse_eq_ok, not_not] at hcheck ⊢
  obtain ⟨u, hfree, v, hwaits, w, hroom, x, ⟨p, hp, hattempt⟩, hrest⟩ := hcheck
  exact ⟨u, hfree, v, hwaits, w, hroom, x, ⟨p, hproviders hp, hattempt⟩, hrest⟩

/-- A new send that passed the checks of a task passes them again. -/
theorem Admits.resend {b : TaskAccounting} (h : Admits b t)
    (hnew : (t.sends.find? fun old => old.command = send.command) = none)
    (hcheck : t.checkSend send = .ok ()) :
    b.resend [send] = .ok { b with sends := t.sends ++ [send] } := by
  have hconsume : b.consumeSend send = (.ok (), { b with sends := b.sends ++ [send] }) := by
    unfold consumeSend
    rw [h.sends, hnew]
    simp [h.checkSend hcheck]
  simp only [TaskAccounting.resend, foldlM_cons, foldlM_nil, hconsume, h.sends]
  rfl

/-- The sends since the first state are consumed again from it, with the providers of by then. -/
def Replays (base t : TaskAccounting) : Prop :=
  ∀ b, Admits b { base with providers := t.providers } →
    b.resend (t.sends.drop base.sends.length) = .ok { b with sends := t.sends }

theorem Replays.refl (t : TaskAccounting) : Replays t t := by
  intro b h
  rw [drop_length, ← h.sends]
  rfl

theorem Replays.of_providers {base t' : TaskAccounting} (h : Replays base t)
    (hproviders : t.providers ⊆ t'.providers) (hsends : t'.sends = t.sends) : Replays base t' := by
  intro b hb
  rw [hsends]
  exact h b { hb with providers := fun p hp => hb.providers (hproviders hp) }

/-- Sends are consumed again after a call, if no sample has come before a send. -/
theorem Replays.call {base : TaskAccounting} (hlater : Later base t) (h : Replays base t) {call : TaskCall}
    (hfirst : ∀ send, call = .consumeSend send →
      t.usage = base.usage ∧ t.totals = base.totals) : Replays base (call.call t).2 := by
  have hgrown := (later_call t call).providers.subset
  cases call with
  | selectProvider provider =>
    obtain ⟨providers, -, heq⟩ := t.selectProvider_spec provider
    rw [TaskCall.call, heq] at hgrown ⊢
    exact h.of_providers hgrown rfl
  | repair delivery attempt failure =>
    obtain ⟨_, _, _, -, heq⟩ := t.repair_spec delivery attempt failure
    rw [TaskCall.call, heq]
    exact h.of_providers (Subset.refl _) rfl
  | appendUsage sample =>
    obtain ⟨_, _, -, heq⟩ := t.appendUsage_spec sample
    rw [TaskCall.call, heq]
    exact h.of_providers (Subset.refl _) rfl
  | consumeSend send =>
    rw [TaskCall.call]
    rcases t.consumeSend_spec send with heq | ⟨hnew, hcheck, heq⟩
    · rw [heq]
      exact h
    rw [heq]
    intro b hb
    obtain ⟨husage, htotals⟩ := hfirst send rfl
    -- the task was not paused when it sent, so it was not at first
    have hpause : base.pause = t.pause := by
      rcases hlater.pause with hsame | hreplan
      · exact hsame.symm
      · rw [pause_eq_none_of_checkSend hcheck] at hreplan
        cases hreplan
    have hadmits : Admits { b with sends := t.sends } t :=
      { pause := hb.pause.trans hpause
        waitReason := hb.waitReason.trans hlater.waitReason.symm
        tokenLimit := hb.tokenLimit.trans hlater.tokenLimit.symm
        totals := hb.totals.trans htotals.symm
        usage := hb.usage.trans husage.symm
        sends := rfl
        providers := hb.providers }
    have hlength : base.sends.length ≤ t.sends.length := hlater.sends.length_le
    calc b.resend ((t.sends ++ [send]).drop base.sends.length)
        = b.resend (t.sends.drop base.sends.length ++ [send]) := by
          rw [drop_append_of_le_length hlength]
      _ = b.resend (t.sends.drop base.sends.length) >>= fun b' => b'.resend [send] := foldlM_append
      _ = ({ b with sends := t.sends } : TaskAccounting).resend [send] := by
          rw [h b hb]
          rfl
      _ = .ok { b with sends := t.sends ++ [send] } := hadmits.resend hnew hcheck

/-! ## Pauses -/

/-- The pause is one that the validator accepts: that of the record before, or, of a task that is
new and has sent, none. -/
def Sound (old : Option TaskAccounting) (t : TaskAccounting) : Prop :=
  match old with
  | some old => old.pause.isSome → t.pause = old.pause
  | none => t.sends ≠ [] → t.pause = none

/-- A call does not pause a task that was paused in the record before, nor one that is new and has
sent. -/
def Spares (old : Option TaskAccounting) (t : TaskAccounting) : TaskCall → Prop
  | .repair delivery attempt failure => t.repairPauses delivery attempt failure → match old with
    | some old => old.pause = none
    | none => t.sends = []
  | .selectProvider _ | .consumeSend _ | .appendUsage _ => True

/-- A call leaves the pause sound exactly where it was and the call spares the task. -/
theorem sound_call {old : Option TaskAccounting} (hlater : ∀ base ∈ old, Later base t) (call : TaskCall) :
    Sound old (call.call t).2 ↔ Sound old t ∧ Spares old t call := by
  cases call with
  | selectProvider provider =>
    obtain ⟨_, -, heq⟩ := t.selectProvider_spec provider
    rw [TaskCall.call, heq, Spares, and_true]
    rfl
  | appendUsage sample =>
    obtain ⟨_, _, -, heq⟩ := t.appendUsage_spec sample
    rw [TaskCall.call, heq, Spares, and_true]
    rfl
  | consumeSend send =>
    rw [TaskCall.call, Spares, and_true]
    rcases t.consumeSend_spec send with heq | ⟨-, hcheck, heq⟩
    · rw [heq]
    · rw [heq]
      have hpause := pause_eq_none_of_checkSend hcheck
      cases old with
      | some old => rfl
      | none => simp [Sound, hpause]
  | repair delivery attempt failure =>
    obtain ⟨_, _, _, -, heq⟩ := t.repair_spec delivery attempt failure
    rw [TaskCall.call, heq]
    by_cases hpauses : t.repairPauses delivery attempt failure
    swap
    · simp only [Spares, hpauses, false_implies, and_true]
      rfl
    simp only [Spares, hpauses, true_implies]
    cases old with
    | none =>
      show (t.sends ≠ [] → some _ = none) ↔ (t.sends ≠ [] → t.pause = none) ∧ t.sends = []
      simp
      tauto
    | some old =>
      -- a task that was paused to be planned anew is not paused again
      have hreplan : old.pause ≠ some .replan := by
        intro h
        rcases (hlater old rfl).pause with hsame | hsame
        · exact hpauses.2.1 (hsame.trans h)
        · exact hpauses.2.1 hsame
      show (old.pause.isSome → some .replan = old.pause) ↔ (old.pause.isSome → t.pause = old.pause) ∧ old.pause = none
      rcases hpause : old.pause with _ | reason
      · simp
      · rw [hpause] at hreplan
        simp [hreplan.symm]

theorem usage_call (t : TaskAccounting) {call : TaskCall} (h : ∀ sample, call ≠ .appendUsage sample) :
    (call.call t).2.usage = t.usage ∧ (call.call t).2.totals = t.totals := by
  cases call with
  | selectProvider provider =>
    obtain ⟨_, -, heq⟩ := t.selectProvider_spec provider
    rw [TaskCall.call, heq]
    exact ⟨rfl, rfl⟩
  | consumeSend send =>
    rw [TaskCall.call]
    rcases t.consumeSend_spec send with heq | ⟨-, -, heq⟩
    all_goals
      rw [heq]
      exact ⟨rfl, rfl⟩
  | repair delivery attempt failure =>
    obtain ⟨_, _, _, -, heq⟩ := t.repair_spec delivery attempt failure
    rw [TaskCall.call, heq]
    exact ⟨rfl, rfl⟩
  | appendUsage sample => exact absurd rfl (h sample)

end TaskAccounting

/-! ## Runs of a record -/

open TaskAccounting

namespace AccountingRecord

/-- The task of the record. -/
def old (r : AccountingRecord) (task : SessionId) : Option TaskAccounting := r.tasks.find? fun t => t.task = task

/-- The state that a task had in the record, or was added in. -/
def baseOf (r : AccountingRecord) (t : TaskAccounting) : TaskAccounting :=
  (r.old t.task).getD (.fresh t.task t.tokenLimit)

theorem baseOf_call (R : AccountingRecord) (t : TaskAccounting) (call : TaskCall) :
    R.baseOf (call.call t).2 = R.baseOf t := by
  rw [baseOf, baseOf, (later_call t call).task, (later_call t call).tokenLimit]

/-- What a record has spent, it has spent from then on. -/
structure Spent (r r' : AccountingRecord) : Prop where
  project : r'.project = r.project
  runId : r'.run = r.run
  previous : r'.previous = r.previous
  history : r'.history = r.history
  revision : r'.revision = r.revision
  startUnixMs : r'.startUnixMs = r.startUnixMs
  deadlineUnixMs : r'.deadlineUnixMs = r.deadlineUnixMs
  lastUnixMs : r.lastUnixMs ≤ r'.lastUnixMs
  elapsedMs : r.elapsedMs ≤ r'.elapsedMs
  durableEventBytes : r.durableEventBytes ≤ r'.durableEventBytes
  clockUncertain : r.clockUncertain → r'.clockUncertain

theorem Spent.refl (r : AccountingRecord) : Spent r r :=
  ⟨rfl, rfl, rfl, rfl, rfl, rfl, rfl, UInt64.le_refl _, UInt64.le_refl _, UInt64.le_refl _, id⟩

theorem Spent.trans {a b c : AccountingRecord} (h : Spent a b) (h' : Spent b c) : Spent a c where
  project := h'.project.trans h.project
  runId := h'.runId.trans h.runId
  previous := h'.previous.trans h.previous
  history := h'.history.trans h.history
  revision := h'.revision.trans h.revision
  startUnixMs := h'.startUnixMs.trans h.startUnixMs
  deadlineUnixMs := h'.deadlineUnixMs.trans h.deadlineUnixMs
  lastUnixMs := UInt64.le_trans h.lastUnixMs h'.lastUnixMs
  elapsedMs := UInt64.le_trans h.elapsedMs h'.elapsedMs
  durableEventBytes := UInt64.le_trans h.durableEventBytes h'.durableEventBytes
  clockUncertain := h'.clockUncertain ∘ h.clockUncertain

theorem spent_step (r : AccountingRecord) (m : Mutator) : Spent r (r.step m) := by
  cases m with
  | observeClock now delta trusted =>
    simp only [step, Mutator.call, observeClock]
    have huncertain : r.clockUncertain →
        (r.clockUncertain || !trusted || decide (now < r.lastUnixMs)) = true := by
      intro h
      simp [h]
    rcases helapsed : checkedAdd r.elapsedMs delta with _ | elapsed
    · exact { Spent.refl r with clockUncertain := huncertain }
    · exact { Spent.refl r with
        lastUnixMs := le_max_left _ _
        elapsedMs := UInt64.le_trans (le_of_checkedAdd helapsed) (le_max_left _ _)
        clockUncertain := huncertain }
  | addTask task tokenLimit =>
    simp only [step, Mutator.call, addTask]
    split
    · exact .refl r
    · split
      · exact .refl r
      · split
        · exact .refl r
        · exact { Spent.refl r with }
  | taskMut task call =>
    simp only [step, Mutator.call, taskMut]
    split
    · exact .refl r
    · exact { Spent.refl r with }
  | consumeEventBytes bytes =>
    simp only [step, Mutator.call, consumeEventBytes]
    rcases hnext : checkedAdd r.durableEventBytes bytes with _ | next
    · exact .refl r
    · dsimp only
      split
      · exact .refl r
      · exact { Spent.refl r with durableEventBytes := le_of_checkedAdd hnext }

/-- What a step does to the tasks: nothing, a new task, or a call on a task. -/
theorem tasks_step (r : AccountingRecord) (m : Mutator) :
    (r.step m).tasks = r.tasks ∧ (∀ task call, m = .taskMut task call → r.old task = none) ∨
    (∃ task tokenLimit, m = .addTask task tokenLimit ∧ task ∉ r.tasks.map TaskAccounting.task ∧
      (r.step m).tasks = r.tasks ++ [.fresh task tokenLimit]) ∨
    ∃ task call t, m = .taskMut task call ∧ r.old task = some t ∧ (r.step m).tasks =
        r.tasks.modifyFirst (fun t => t.task = task) fun t => (call.call t).2 := by
  cases m with
  | observeClock now delta trusted =>
    refine .inl ⟨?_, fun _ _ h => nomatch h⟩
    simp only [step, Mutator.call, observeClock]
    split
    · rfl
    · rfl
  | addTask task tokenLimit =>
    simp only [step, Mutator.call, addTask]
    split
    · exact .inl ⟨rfl, fun _ _ h => nomatch h⟩
    · split
      · exact .inl ⟨rfl, fun _ _ h => nomatch h⟩
      · split
        · exact .inl ⟨rfl, fun _ _ h => nomatch h⟩
        · rename_i hnew
          exact .inr (.inl ⟨task, tokenLimit, rfl, fun h => hnew (.inr h), rfl⟩)
  | taskMut task call =>
    simp only [step, Mutator.call, taskMut]
    split
    · rename_i hnone
      refine .inl ⟨rfl, ?_⟩
      rintro _ _ ⟨⟩
      exact hnone
    · rename_i t hsome
      exact .inr (.inr ⟨task, call, t, rfl, hsome, rfl⟩)
  | consumeEventBytes bytes =>
    refine .inl ⟨?_, fun _ _ h => nomatch h⟩
    simp only [step, Mutator.call, consumeEventBytes]
    split
    · rfl
    · split
      · rfl
      · rfl

/-- No sample is appended to a task before a send of it. -/
def SendsFirst (ms : List Mutator) : Prop :=
  ms.Pairwise fun earlier later => ∀ task sample send,
    earlier = .taskMut task (.appendUsage sample) → later ≠ .taskMut task (.consumeSend send)

/-- A record that calls have led to from the tasks of the record before. -/
structure Grown (R : AccountingRecord) (done : List Mutator) (r : AccountingRecord) : Prop where
  nodup : (r.tasks.map TaskAccounting.task).Nodup
  tasks : R.tasks.map TaskAccounting.task <+: r.tasks.map TaskAccounting.task
  later : ∀ t ∈ r.tasks, Later (R.baseOf t) t
  replays : ∀ t ∈ r.tasks, Replays (R.baseOf t) t
  samples : ∀ t ∈ r.tasks, (t.usage = (R.baseOf t).usage ∧ t.totals = (R.baseOf t).totals) ∨
      ∃ sample, .taskMut t.task (.appendUsage sample) ∈ done

theorem baseOf_of_mem {R : AccountingRecord} (hnodup : (R.tasks.map TaskAccounting.task).Nodup)
    {t : TaskAccounting} (ht : t ∈ R.tasks) : R.baseOf t = t := by
  rw [baseOf, old, find?_key hnodup ht]
  rfl

section

variable {R r : AccountingRecord}

theorem Grown.refl (hnodup : (R.tasks.map TaskAccounting.task).Nodup) (htasks : r.tasks = R.tasks) : Grown R [] r := by
  have hbase (t : TaskAccounting) (ht : t ∈ r.tasks) : R.baseOf t = t := baseOf_of_mem hnodup (htasks ▸ ht)
  constructor
  · rwa [htasks]
  · exact htasks ▸ prefix_refl _
  · intro t ht
    rw [hbase t ht]
    exact .refl t
  · intro t ht
    rw [hbase t ht]
    exact .refl t
  · intro t ht
    rw [hbase t ht]
    exact .inl ⟨rfl, rfl⟩

/-- A task that no record before had starts afresh. -/
theorem baseOf_fresh {task : SessionId} (tokenLimit : Option UInt64)
    (htasks : R.tasks.map TaskAccounting.task <+: r.tasks.map TaskAccounting.task)
    (hnew : task ∉ r.tasks.map TaskAccounting.task) :
    R.old task = none ∧ R.baseOf (.fresh task tokenLimit) = .fresh task tokenLimit := by
  have hnone : R.old task = none := by
    rw [old, find?_eq_none]
    intro t ht heq
    exact hnew (htasks.subset (mem_map.mpr ⟨t, ht, by simpa using heq⟩))
  refine ⟨hnone, ?_⟩
  show (R.old task).getD _ = _
  rw [hnone]
  rfl

theorem Grown.step {done : List Mutator} (h : Grown R done r)
    {m : Mutator} (hfirst : ∀ task send, m = .taskMut task (.consumeSend send) →
      ∀ sample, .taskMut task (.appendUsage sample) ∉ done) : Grown R (done ++ [m]) (r.step m) := by
  have hsamples : ∀ t ∈ r.tasks, (t.usage = (R.baseOf t).usage ∧ t.totals = (R.baseOf t).totals) ∨
        ∃ sample, .taskMut t.task (.appendUsage sample) ∈ done ++ [m] := by
    intro t ht
    refine (h.samples t ht).imp_right ?_
    rintro ⟨sample, hsample⟩
    exact ⟨sample, mem_append_left _ hsample⟩
  rcases r.tasks_step m with ⟨hsame, -⟩ | ⟨task, tokenLimit, rfl, hnew, htasks⟩ | ⟨task, call, t, rfl, hfind, htasks⟩
  · exact ⟨hsame ▸ h.nodup, hsame ▸ h.tasks, hsame ▸ h.later, hsame ▸ h.replays, hsame ▸ hsamples⟩
  · obtain ⟨-, hbase⟩ := baseOf_fresh tokenLimit h.tasks hnew
    constructor
    · rw [htasks, map_append, nodup_append]
      refine ⟨h.nodup, nodup_singleton _, ?_⟩
      rintro key hkey _ (_ | ⟨_, ⟨⟩⟩) rfl
      exact hnew hkey
    · rw [htasks, map_append]
      exact h.tasks.trans (prefix_append _ _)
    all_goals
      rw [htasks, forall_mem_append, forall_mem_singleton, hbase]
    · exact ⟨h.later, .refl _⟩
    · exact ⟨h.replays, .refl _⟩
    · exact ⟨hsamples, .inl ⟨rfl, rfl⟩⟩
  · have ht : t ∈ r.tasks := mem_of_find?_eq_some hfind
    have hid : t.task = task := by simpa using find?_some hfind
    have hids : (r.step (.taskMut task call)).tasks.map TaskAccounting.task =
        r.tasks.map TaskAccounting.task := by
      rw [htasks]
      exact map_modifyFirst (fun t _ => (later_call t call).task) r.tasks
    -- a task is as before, or it is the one that was called
    have hcases {P : TaskAccounting → Prop} (hrest : ∀ t ∈ r.tasks, P t)
        (hcalled : P (call.call t).2) : ∀ t' ∈ (r.step (.taskMut task call)).tasks, P t' := by
      intro t' ht'
      rw [htasks] at ht'
      rcases mem_modifyFirst ht' with hmem | ⟨a, -, ha, rfl⟩
      · exact hrest t' hmem
      · rw [old] at hfind
        rw [hfind] at ha
        cases ha
        exact hcalled
    constructor
    · rw [hids]
      exact h.nodup
    · rw [hids]
      exact h.tasks
    · apply hcases h.later
      rw [baseOf_call]
      exact (h.later t ht).trans (later_call t call)
    · apply hcases h.replays
      rw [baseOf_call]
      apply (h.replays t ht).call (h.later t ht)
      rintro send rfl
      rcases h.samples t ht with huntouched | ⟨sample, hsample⟩
      · exact huntouched
      · rw [hid] at hsample
        exact absurd hsample (hfirst task send rfl sample)
    · apply hcases hsamples
      rw [baseOf_call, (later_call t call).task]
      by_cases happend : ∃ sample, call = .appendUsage sample
      · obtain ⟨sample, rfl⟩ := happend
        exact .inr ⟨sample, by simp [hid]⟩
      · obtain ⟨husage, htotals⟩ := t.usage_call (not_exists.mp happend)
        rw [husage, htotals]
        exact hsamples t ht

end

theorem runAll_concat (r : AccountingRecord) (ms : List Mutator) (m : Mutator) :
    r.runAll (ms ++ [m]) = (r.runAll ms).step m := foldl_append

theorem spent_runAll (r : AccountingRecord) (ms : List Mutator) : Spent r (r.runAll ms) := by
  induction ms using List.reverseRecOn with
  | nil => exact .refl r
  | append_singleton ms m ih =>
    rw [runAll_concat]
    exact ih.trans (spent_step _ m)

/-- Nothing that was spent is taken back, whatever the calls and whether they are refused. -/
theorem runAll_spends (r : AccountingRecord) (ms : List Mutator) : Spent r (r.runAll ms) ∧
    ∀ t ∈ r.tasks, ∃ t' ∈ (r.runAll ms).tasks, TaskAccounting.Later t t' := by
  refine ⟨spent_runAll r ms, fun t ht => ?_⟩
  induction ms using List.reverseRecOn with
  | nil => exact ⟨t, ht, .refl t⟩
  | append_singleton ms m ih =>
    obtain ⟨t', ht', hlater⟩ := ih
    rw [runAll_concat]
    rcases (r.runAll ms).tasks_step m with ⟨hsame, -⟩ | ⟨_, _, -, -, htasks⟩ | ⟨_, call, _, -, -, htasks⟩
    · exact ⟨t', hsame ▸ ht', hlater⟩
    · exact ⟨t', htasks ▸ mem_append_left _ ht', hlater⟩
    · rw [htasks]
      rcases mem_or_of_modifyFirst ht' with hstays | ⟨-, hchanged⟩
      · exact ⟨t', hstays, hlater⟩
      · exact ⟨_, hchanged, hlater.trans (TaskAccounting.later_call t' call)⟩

theorem Grown.runAll {R r : AccountingRecord} (h : Grown R [] r) {ms : List Mutator}
    (hfirst : SendsFirst ms) : Grown R ms (r.runAll ms) := by
  induction ms using List.reverseRecOn with
  | nil => exact h
  | append_singleton ms m ih =>
    obtain ⟨hbefore, -, hlast⟩ := pairwise_append.mp hfirst
    rw [runAll_concat]
    refine (ih hbefore).step ?_
    rintro task send rfl sample hsample
    exact hlast _ hsample _ (mem_singleton_self _) task sample send rfl rfl

/-! ## Sound pauses -/

/-- Every task's pause is one that the validator accepts. -/
def Sound (R r : AccountingRecord) : Prop := ∀ t ∈ r.tasks, TaskAccounting.Sound (R.old t.task) t

/-- The call does not pause a task that the validator would refuse paused. -/
def Spares (R r : AccountingRecord) : Mutator → Prop
  | .taskMut task call => ∀ t ∈ r.old task, TaskAccounting.Spares (R.old task) t call
  | .observeClock _ _ _ | .addTask _ _ | .consumeEventBytes _ => True

theorem sound_step {R r : AccountingRecord} {done : List Mutator} (h : Grown R done r)
    (m : Mutator) : Sound R (r.step m) ↔ Sound R r ∧ Spares R r m := by
  rcases r.tasks_step m with ⟨hsame, hnone⟩ | ⟨task, tokenLimit, rfl, hnew, htasks⟩ |
    ⟨task, call, t, rfl, hfind, htasks⟩
  · have hspares : Spares R r m := by
      cases m with
      | taskMut task call =>
        intro t ht
        rw [hnone task call rfl] at ht
        cases ht
      | _ => trivial
    rw [Sound, hsame, and_iff_left hspares]
    rfl
  · obtain ⟨hold, -⟩ := baseOf_fresh tokenLimit h.tasks hnew
    have hfresh : TaskAccounting.Sound (R.old task) (.fresh task tokenLimit) := by
      rw [hold]
      exact fun _ => rfl
    rw [Spares, and_true, Sound, htasks, forall_mem_append, forall_mem_singleton]
    exact and_iff_left hfresh
  · have ht : t ∈ r.tasks := mem_of_find?_eq_some hfind
    have hid : t.task = task := by simpa using find?_some hfind
    have hcall : TaskAccounting.Sound (R.old task) (call.call t).2 ↔
        TaskAccounting.Sound (R.old task) t ∧ TaskAccounting.Spares (R.old task) t call := by
      apply sound_call
      intro base hbase
      have hlater := h.later t ht
      rwa [baseOf, hid, hbase] at hlater
    have hspares : Spares R r (.taskMut task call) ↔
        TaskAccounting.Spares (R.old task) t call := by
      rw [Spares, hfind]
      simp
    rw [hspares]
    constructor
    · intro hsound
      have hcalled : (call.call t).2 ∈ (r.step (.taskMut task call)).tasks := by
        rw [htasks]
        exact mem_modifyFirst_of_find? hfind
      have hthis := hsound _ hcalled
      rw [(later_call t call).task, hid, hcall] at hthis
      refine ⟨fun t' ht' => ?_, hthis.2⟩
      rcases mem_or_of_modifyFirst (p := fun t => t.task = task)
        (f := fun t => (call.call t).2) ht' with hstays | ⟨hfirst, -⟩
      · exact hsound t' (htasks ▸ hstays)
      · rw [old] at hfind
        rw [hfind] at hfirst
        cases hfirst
        rw [hid]
        exact hthis.1
    · rintro ⟨hsound, hspares⟩ t' ht'
      rw [htasks] at ht'
      rcases mem_modifyFirst ht' with hmem | ⟨a, -, ha, rfl⟩
      · exact hsound t' hmem
      · rw [old] at hfind
        rw [hfind] at ha
        cases ha
        rw [(later_call t call).task, hid]
        refine hcall.mpr ⟨?_, hspares⟩
        rw [← hid]
        exact hsound t ht

/-- The pauses are sound after a run exactly where every call of it spared its task. -/
theorem sound_runAll {R r : AccountingRecord} (h : Grown R [] r) (hsound : Sound R r)
    {ms : List Mutator} (hfirst : SendsFirst ms) : Sound R (r.runAll ms) ↔
      ∀ before m after, ms = before ++ m :: after → Spares R (r.runAll before) m := by
  induction ms using List.reverseRecOn with
  | nil =>
    rw [runAll, foldl_nil, iff_true_left hsound]
    rintro before m after heq
    exact absurd heq.symm (by simp)
  | append_singleton ms m ih =>
    have hbefore := (pairwise_append.mp hfirst).1
    rw [runAll_concat, sound_step (h.runAll hbefore), ih hbefore]
    constructor
    · rintro ⟨hspares, hlast⟩ before m' after heq
      rcases eq_nil_or_concat' after with rfl | ⟨after, m'', rfl⟩
      · obtain ⟨rfl, hsingle⟩ := append_inj' heq rfl
        cases hsingle
        exact hlast
      · have hinit : ms ++ [m] = (before ++ m' :: after) ++ [m''] := by simpa using heq
        obtain ⟨rfl, -⟩ := append_inj' hinit rfl
        exact hspares before m' after rfl
    · intro hspares
      refine ⟨?_, hspares ms m [] rfl⟩
      rintro before m' after rfl
      exact hspares before m' (after ++ [m]) (by simp)

/-! ## What the validator asks -/

section Validator

variable {R r : AccountingRecord} {done : List Mutator}

theorem Grown.validateKept_iff (h : Grown R done r) {t old : TaskAccounting} (ht : t ∈ r.tasks)
    (hold : R.old t.task = some old) :
    r.validateKept old = .ok () ↔ (old.pause.isSome → t.pause = old.pause) := by
  have hid : t.task = old.task := by simpa [eq_comm] using find?_some hold
  have hlater := h.later t ht
  rw [baseOf, hold, Option.getD_some] at hlater
  have hfind : (r.tasks.find? fun t => t.task = old.task) = some t := by
    rw [← hid]
    exact find?_key h.nodup ht
  have hrepairs := hlater.repairs
  simp only [validateKept, hfind, okOr_some, ok_bind, bind_eq_ok, refuse_eq_ok, all_eq_ok, not_or,
    not_not, not_and, hlater.tokenLimit, hlater.sends, hlater.providers, hlater.usage]
  constructor
  · rintro ⟨⟨⟩, ⟨-, -, -, -, hpause⟩, -⟩
    exact hpause
  · intro hpause
    exact ⟨(), ⟨trivial, trivial, trivial, trivial, hpause⟩, hrepairs⟩

theorem resend_new {b b' : TaskAccounting} {send : SendConsumption}
    {sends : List SendConsumption} (hsends : b.sends = [])
    (h : b.resend (send :: sends) = .ok b') : b.pause = none := by
  rw [TaskAccounting.resend, foldlM_cons, bind_eq_ok] at h
  obtain ⟨b'', h, -⟩ := h
  unfold consumeSend at h
  rw [hsends] at h
  rcases hcheck : b.checkSend send with reason | ⟨⟩
  · rw [hcheck] at h
    cases h
  · exact pause_eq_none_of_checkSend hcheck

theorem Grown.validateSends_iff (h : Grown R done r) {t : TaskAccounting} (ht : t ∈ r.tasks) :
    R.validateSends t = .ok () ↔ (R.old t.task = none → t.sends ≠ [] → t.pause = none) := by
  have hlater := h.later t ht
  have hreplays := h.replays t ht
  rw [baseOf] at hlater hreplays
  simp only [validateSends, bind_eq_ok, and_true]
  rcases hold : R.old t.task with _ | old
  · rw [hold] at hlater hreplays
    rw [old] at hold
    simp only [admittedBy, hold, length_nil, drop_zero, true_implies]
    constructor
    · rintro ⟨b', hb'⟩ hsent
      obtain ⟨send, sends, hcons⟩ := exists_cons_of_ne_nil hsent
      rw [hcons] at hb'
      exact resend_new (b := { t with sends := [], usage := [], totals := .default }) rfl hb'
    · intro hpause
      by_cases hsent : t.sends = []
      · rw [hsent]
        exact ⟨_, rfl⟩
      · exact ⟨_, hreplays _ {
          pause := hpause hsent
          waitReason := hlater.waitReason
          tokenLimit := rfl
          totals := rfl
          usage := rfl
          sends := rfl
          providers := Subset.refl _ }⟩
  · rw [hold] at hreplays
    rw [AccountingRecord.old] at hold
    simp only [admittedBy, hold, reduceCtorEq, false_implies, iff_true]
    exact ⟨_, hreplays _ ⟨rfl, rfl, rfl, rfl, rfl, rfl, Subset.refl _⟩⟩

end Validator

theorem successor_ok {sha256 : List UInt8 → String} {R S : AccountingRecord}
    (h : R.successor sha256 = .ok S) : R.validate = .ok () ∧ S.tasks = R.tasks ∧
      Spent { R with previous := S.previous, history := S.history, revision := S.revision } S := by
  rw [successor, bind_eq_ok] at h
  obtain ⟨⟨⟩, hvalid, h⟩ := h
  simp only [bind_eq_ok, refuse_eq_ok] at h
  obtain ⟨_, -, _, -, _, -, _, -, _, -, h⟩ := h
  cases h
  exact ⟨hvalid, rfl, .refl _⟩

theorem nodup_of_validate {r : AccountingRecord} (h : r.validate = .ok ()) :
    (r.tasks.map TaskAccounting.task).Nodup := by
  simp only [validate, bind_eq_ok] at h
  obtain ⟨_, -, _, -, _, -, _, -, _, -, _, htasks, -⟩ := h
  show ((([] : List TaskAccounting) ++ r.tasks).map TaskAccounting.task).Nodup
  refine nodup_of_allAfter ?_ nodup_nil htasks
  intro before t ht
  rw [TaskAccounting.validate, bind_eq_ok] at ht
  obtain ⟨⟨⟩, hnew, -⟩ := ht
  simpa using hnew

/-- **The calls and the validator agree on a record**, exactly where no call pauses a task that was
paused before for another reason, or that is new and has already sent. -/
theorem validateSuccessor_runAll (sha256 : List UInt8 → String) {R S : AccountingRecord}
    (hS : R.successor sha256 = .ok S) {ms : List Mutator} (hfirst : SendsFirst ms)
    (hvalid : (S.runAll ms).validate = .ok ()) :
    (S.runAll ms).validateSuccessor sha256 R = .ok () ↔
      ∀ before m after, ms = before ++ m :: after → Spares R (S.runAll before) m := by
  obtain ⟨hR, htasks, hspent⟩ := successor_ok hS
  have hnodup := nodup_of_validate hR
  have hgrown := Grown.refl hnodup htasks
  have hsound : Sound R S := by
    intro t ht
    rw [htasks] at ht
    rw [old, find?_key hnodup ht]
    exact fun _ => rfl
  rw [← sound_runAll hgrown hsound hfirst]
  have hrun := hgrown.runAll hfirst
  have hspent' := hspent.trans (spent_runAll S ms)
  generalize S.runAll ms = r at *
  have hclock : ¬ (R.clockUncertain ∧ ¬ r.clockUncertain) := fun h => h.2 (hspent'.clockUncertain h.1)
  simp only [validateSuccessor, hvalid, hS, ok_bind, bind_eq_ok, refuse_eq_ok, all_eq_ok,
    hspent'.project, hspent'.runId, hspent'.previous, hspent'.history, hspent'.revision,
    hspent'.startUnixMs, hspent'.deadlineUnixMs, UInt64.not_lt.mpr hspent'.lastUnixMs,
    UInt64.not_lt.mpr hspent'.elapsedMs, UInt64.not_lt.mpr hspent'.durableEventBytes, hclock]
  constructor
  · rintro ⟨⟨⟩, -, ⟨⟩, hkept, hsends⟩ t ht
    rcases hold : R.old t.task with _ | old
    · exact (hrun.validateSends_iff ht).mp (hsends t ht) hold
    · have hmem : old ∈ R.tasks := mem_of_find?_eq_some hold
      exact (hrun.validateKept_iff ht hold).mp (all_eq_ok.mp hkept old hmem)
  · intro hsound
    refine ⟨(), by simp, (), all_eq_ok.mpr ?_, ?_⟩
    · intro old hmem
      obtain ⟨t, ht, hid⟩ := mem_map.mp (hrun.tasks.subset (mem_map_of_mem hmem))
      have hold : R.old t.task = some old := by
        rw [hid]
        exact find?_key hnodup hmem
      have hpause := hsound t ht
      rw [hold] at hpause
      exact (hrun.validateKept_iff ht hold).mpr hpause
    · intro t ht
      refine (hrun.validateSends_iff ht).mpr ?_
      intro hold
      have hpause := hsound t ht
      rwa [hold] at hpause

end AccountingRecord

/-! ## A task that is paused after its first send -/

def demoRecord : AccountingRecord where
  version := 2
  project := "00000000000000000000000000000001"
  run := "00000000000000000000000000000002"
  previous := none
  history := []
  revision := 0
  startUnixMs := 1000
  deadlineUnixMs := 21601000
  lastUnixMs := 1000
  elapsedMs := 0
  clockUncertain := false
  durableEventBytes := 0
  tasks := []

/-- The digests of the record and of its archive. -/
def demoSha256 (bytes : List UInt8) : String :=
  if bytes.length = 339 then "62e2036862267f5b99c0a769f9933439ec9e1c2e9e16f3e1cabf51d2eacef7b2"
  else "80eacafb4a2131a8607e10cb88b6dbc6bee1f1ad33cf514c1e0c8755346f8e03"

def demoNext : AccountingRecord := { demoRecord with
  previous := some { sha256 := "62e2036862267f5b99c0a769f9933439ec9e1c2e9e16f3e1cabf51d2eacef7b2"
                     byteLength := 339
                     recordKind := .runIndex }
  history := [{ sha256 := "80eacafb4a2131a8607e10cb88b6dbc6bee1f1ad33cf514c1e0c8755346f8e03"
                byteLength := 503
                recordKind := .runIndex }]
  revision := 1 }

def demoSelection : ProviderSelection := ⟨"fixture", "fixture", []⟩

def demoSend : SendConsumption where
  command := ⟨"00000000000000000000000000000005", 1⟩
  attempt := "00000000000000000000000000000004"
  turn := 1
  payload :=
    { sha256 := "d2a84f4b8b650937ec8f73cd8be2c74add5a911ba64df27458ed8229da804a26"
      byteLength := 12
      recordKind := .ownedData }

def demoRepair : Mutator :=
  .taskMut "00000000000000000000000000000003" (.repair "00000000000000000000000000000006"
    "00000000000000000000000000000004"
    "aaaaaaaaaaaaaaaaaaaaaaaaaaaaaaaaaaaaaaaaaaaaaaaaaaaaaaaaaaaaaaaa")

/-- A task is added, sends once and fails once. -/
def demoCalls : List Mutator :=
  [.addTask "00000000000000000000000000000003" none, .taskMut "00000000000000000000000000000003" (.selectProvider
      ⟨"00000000000000000000000000000004", demoSelection, demoSelection, "fixture-1"⟩),
    .taskMut "00000000000000000000000000000003" (.consumeSend demoSend),
    demoRepair]

theorem demoRecord_successor : demoRecord.successor demoSha256 = .ok demoNext := by decide +kernel

theorem validateSuccessor_runAll_demo : (demoNext.runAll demoCalls).validateSuccessor demoSha256 demoRecord = .ok () ∧
      ∀ before m after, demoCalls = before ++ m :: after →
        AccountingRecord.Spares demoRecord (demoNext.runAll before) m := by
  have haccepted : (demoNext.runAll demoCalls).validateSuccessor demoSha256 demoRecord = .ok () := by
    decide +kernel
  refine ⟨haccepted, (AccountingRecord.validateSuccessor_runAll demoSha256 demoRecord_successor ?_ ?_).mp haccepted⟩
  · simp [AccountingRecord.SendsFirst, demoCalls]
  · decide +kernel

/-- A task that is added, sends and then fails twice is paused, and its send is not accepted. -/
theorem paused_after_first_send : ¬ ∀ (R S : AccountingRecord) (ms : List Mutator),
    R.validate = .ok () → R.successor demoSha256 = .ok S → AccountingRecord.SendsFirst ms →
    (S.runAll ms).validate = .ok () → (S.runAll ms).validateSuccessor demoSha256 R = .ok () := by
  intro h
  have hrefused : (demoNext.runAll (demoCalls ++ [demoRepair])).validateSuccessor demoSha256
      demoRecord = .error .replan := by decide +kernel
  rw [h demoRecord demoNext _ (by decide +kernel) demoRecord_successor
    (by simp [AccountingRecord.SendsFirst, demoCalls, demoRepair]) (by decide +kernel)] at hrefused
  cases hrefused

end Kinewright.Accounting
