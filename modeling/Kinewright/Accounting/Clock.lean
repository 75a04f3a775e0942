import Kinewright.Accounting.Successor

/-!
# The clock of a run

The owner of a run tells it the wall clock and how long it ran. What the run has spent never gets less. It does not stay out of
time in one case: where the time it ran is too much for the counter, the call is refused and the time is not recorded.
-/

namespace Kinewright.Accounting

open Fallible

/-- A call of `observe_clock`. -/
structure ClockCall where
  now : UInt64
  monotonicDelta : UInt64
  trusted : Bool

namespace AccountingRecord

/-- The call, with what it returns. -/
def observe (r : AccountingRecord) (call : ClockCall) : Except AccountingRefusal Unit × AccountingRecord :=
  r.observeClock call.now call.monotonicDelta call.trusted

/-- The record after the calls. -/
def observeAll (r : AccountingRecord) (calls : List ClockCall) : AccountingRecord :=
  calls.foldl (fun r call => (r.observe call).2) r

/-- The clock is uncertain, or the time of the run is over. -/
def OutOfTime (r : AccountingRecord) : Prop :=
  r.clockUncertain = true ∨ runMillis ≤ r.elapsedMs ∨ r.deadlineUnixMs ≤ r.lastUnixMs

/-- Whatever is asked of the clock is refused. -/
structure Stopped (r : AccountingRecord) : Prop where
  check : r.checkClock ≠ .ok ()
  observe : ∀ call, (r.observe call).1 ≠ .ok ()
  addTask : ∀ task tokenLimit, (r.addTask task tokenLimit).1 ≠ .ok ()

/-- The time that the run is told it ran is recorded, or the run has none anyway. -/
def Counted (r : AccountingRecord) (call : ClockCall) : Prop :=
  r.elapsedMs.toNat + call.monotonicDelta.toNat < 2 ^ 64 ∨ call.trusted = false ∨ call.now < r.lastUnixMs ∨ r.OutOfTime

section

variable {r : AccountingRecord} {call : ClockCall}

theorem checkClock_eq_ok : r.checkClock = .ok () ↔ ¬ r.OutOfTime := by
  rw [checkClock, then_eq_ok, refuse_eq_ok, refuse_eq_ok, OutOfTime]
  tauto

/-- A record that spends more is out of time if the one before was. -/
theorem OutOfTime.spent {r' : AccountingRecord} (h : r.OutOfTime) (hspent : Spent r r') : r'.OutOfTime := by
  rcases h with huncertain | helapsed | hdeadline
  · exact .inl (hspent.clockUncertain huncertain)
  · exact .inr (.inl (UInt64.le_trans helapsed hspent.elapsedMs))
  · refine .inr (.inr ?_)
    rw [hspent.deadlineUnixMs]
    exact UInt64.le_trans hdeadline hspent.lastUnixMs

theorem spent_observe (r : AccountingRecord) (call : ClockCall) : Spent r (r.observe call).2 :=
  spent_step r (.observeClock call.now call.monotonicDelta call.trusted)

theorem spent_observeAll (r : AccountingRecord) (calls : List ClockCall) : Spent r (r.observeAll calls) := by
  induction calls generalizing r with
  | nil => exact .refl r
  | cons call calls ih => exact (spent_observe r call).trans (ih _)

theorem observeAll_append (r : AccountingRecord) (calls calls' : List ClockCall) :
    r.observeAll (calls ++ calls') = (r.observeAll calls).observeAll calls' := List.foldl_append

/-- The record after a call, by whether the time it ran fits. -/
theorem observe_of_fits (h : r.elapsedMs.toNat + call.monotonicDelta.toNat < 2 ^ 64) :
    (r.observe call).1 = (r.observe call).2.checkClock ∧
      (r.observe call).2.elapsedMs = max (r.elapsedMs + call.monotonicDelta) (saturatingSub call.now r.startUnixMs) ∧
      (r.observe call).2.lastUnixMs = max r.lastUnixMs call.now := by
  rw [observe, observeClock, checkedAdd, if_pos h]
  exact ⟨rfl, rfl, rfl⟩

theorem observe_of_overflow (h : ¬ r.elapsedMs.toNat + call.monotonicDelta.toNat < 2 ^ 64) :
    r.observe call = (.error .time, { r with
      clockUncertain := r.clockUncertain || !call.trusted || decide (call.now < r.lastUnixMs) }) := by
  rw [observe, observeClock, checkedAdd, if_neg h]

/-- Nothing is accepted any more when the time is over. -/
theorem OutOfTime.stopped (h : r.OutOfTime) : r.Stopped where
  check hok := checkClock_eq_ok.mp hok h
  observe call hok := by
    by_cases hfits : r.elapsedMs.toNat + call.monotonicDelta.toNat < 2 ^ 64
    · rw [(observe_of_fits hfits).1] at hok
      exact checkClock_eq_ok.mp hok (h.spent (spent_observe r call))
    · rw [observe_of_overflow hfits] at hok
      cases hok
  addTask task tokenLimit hok := by
    rw [AccountingRecord.addTask] at hok
    split at hok
    · cases hok
    · rename_i hclock
      exact checkClock_eq_ok.mp hclock h

/-- A call that is refused leaves the time over exactly if it is recorded. -/
theorem outOfTime_observe (hrefused : (r.observe call).1 ≠ .ok ()) : (r.observe call).2.OutOfTime ↔ r.Counted call := by
  by_cases hfits : r.elapsedMs.toNat + call.monotonicDelta.toNat < 2 ^ 64
  · rw [(observe_of_fits hfits).1] at hrefused
    exact ⟨fun _ => .inl hfits, fun _ => not_not.mp fun h => hrefused (checkClock_eq_ok.mpr h)⟩
  · rw [observe_of_overflow hfits, Counted, OutOfTime, OutOfTime, or_iff_right hfits]
    simp only [Bool.or_eq_true, Bool.not_eq_true', decide_eq_true_eq]
    tauto

theorem refused_of_not_counted (h : ¬ r.Counted call) : (r.observe call).1 ≠ .ok () := by
  have hoverflow : ¬ r.elapsedMs.toNat + call.monotonicDelta.toNat < 2 ^ 64 := fun hfits => h (.inl hfits)
  rw [observe_of_overflow hoverflow]
  exact fun hok => by cases hok

/-- The run has spent the time since its start. -/
def SpentSinceStart (r : AccountingRecord) : Prop :=
  r.startUnixMs ≤ r.lastUnixMs ∧ r.lastUnixMs.toNat - r.startUnixMs.toNat ≤ r.elapsedMs.toNat

theorem spentSinceStart_of_validate (h : r.validate = .ok ()) : r.SpentSinceStart := by
  rw [validate, then_eq_ok, refuse_eq_ok] at h
  obtain ⟨hinvalid, -⟩ := h
  simp only [not_or, UInt64.not_lt] at hinvalid
  obtain ⟨-, -, hstart, helapsed, -⟩ := hinvalid
  refine ⟨hstart, ?_⟩
  rwa [UInt64.le_iff_toNat_le, UInt64.toNat_sub_of_le _ _ hstart] at helapsed

theorem SpentSinceStart.observe (h : r.SpentSinceStart) (call : ClockCall) : (r.observe call).2.SpentSinceStart := by
  obtain ⟨hstart, hspent⟩ := h
  have hkept := spent_observe r call
  refine ⟨hkept.startUnixMs ▸ UInt64.le_trans hstart hkept.lastUnixMs, ?_⟩
  rw [hkept.startUnixMs]
  by_cases hfits : r.elapsedMs.toNat + call.monotonicDelta.toNat < 2 ^ 64
  · obtain ⟨-, helapsed, hlast⟩ := observe_of_fits hfits
    have hsub : call.now.toNat - r.startUnixMs.toNat ≤ (saturatingSub call.now r.startUnixMs).toNat := by
      rw [saturatingSub]
      split
      · rename_i hle
        rw [UInt64.toNat_sub_of_le _ _ hle]
      · rename_i hle
        rw [UInt64.le_iff_toNat_le] at hle
        omega
    rw [helapsed, hlast, toNat_max, toNat_max, UInt64.toNat_add, Nat.mod_eq_of_lt hfits]
    omega
  · rw [observe_of_overflow hfits]
    exact hspent

theorem SpentSinceStart.observeAll (h : r.SpentSinceStart) (calls : List ClockCall) :
    (r.observeAll calls).SpentSinceStart := by
  induction calls generalizing r with
  | nil => exact h
  | cons call calls ih => exact ih (h.observe call)

end

/-- What is to hold of a run of calls: time is only spent, and a clock that was refused once is refused from then on. -/
structure OnlySpends (r : AccountingRecord) (calls : List ClockCall) : Prop where
  spends : ∀ before later, before ++ later <+: calls →
    (r.observeAll before).lastUnixMs ≤ (r.observeAll (before ++ later)).lastUnixMs ∧
    (r.observeAll before).elapsedMs ≤ (r.observeAll (before ++ later)).elapsedMs ∧
    ((r.observeAll before).clockUncertain = true → (r.observeAll (before ++ later)).clockUncertain = true)
  sinceStart : ∀ before, before <+: calls → (r.observeAll before).SpentSinceStart
  checked : ∀ before later, before ++ later <+: calls → (r.observeAll before).checkClock ≠ .ok () →
    (r.observeAll (before ++ later)).Stopped
  refused : ∀ before call later, before ++ call :: later <+: calls → ((r.observeAll before).observe call).1 ≠ .ok () →
    (r.observeAll (before ++ call :: later)).Stopped

/-- A run only spends time exactly if the time that each call tells it it ran is recorded, or it has none left anyway. -/
theorem onlySpends_iff {r : AccountingRecord} (hvalid : r.validate = .ok ()) (calls : List ClockCall) :
    r.OnlySpends calls ↔ ∀ before call, before ++ [call] <+: calls → (r.observeAll before).Counted call := by
  constructor
  · intro h before call hprefix
    by_contra hlost
    have hrefused := refused_of_not_counted hlost
    have hstopped := h.refused before call [] hprefix hrefused
    rw [observeAll_append] at hstopped
    exact hlost ((outOfTime_observe hrefused).mp (not_not.mp fun htime => hstopped.check (checkClock_eq_ok.mpr htime)))
  · intro hcounted
    refine ⟨fun before later _ => ?_, fun before _ => ?_, fun before later _ hcheck => ?_, fun before call later hprefix hrefused => ?_⟩
    · have hspent := spent_observeAll (r.observeAll before) later
      rw [observeAll_append]
      exact ⟨hspent.lastUnixMs, hspent.elapsedMs, hspent.clockUncertain⟩
    · exact (spentSinceStart_of_validate hvalid).observeAll before
    · have htime : (r.observeAll before).OutOfTime := not_not.mp fun h => hcheck (checkClock_eq_ok.mpr h)
      rw [observeAll_append]
      exact (htime.spent (spent_observeAll _ later)).stopped
    · have hcall : before ++ [call] <+: calls := by
        refine List.IsPrefix.trans ?_ hprefix
        rw [List.append_cons before call later]
        exact List.prefix_append _ _
      have htime := (outOfTime_observe hrefused).mpr (hcounted before call hcall)
      rw [List.append_cons, observeAll_append, observeAll_append]
      exact (htime.spent (spent_observeAll _ later)).stopped

end AccountingRecord

/-- A run that ran for longer than can be counted is told so, and goes on. -/
theorem overflow_goes_on : demoRecord.validate = .ok () ∧
    ((demoRecord.observeAll [⟨1001, 1, true⟩]).observe ⟨1001, 18446744073709551615, true⟩).1 = .error .time ∧
    (demoRecord.observeAll [⟨1001, 1, true⟩, ⟨1001, 18446744073709551615, true⟩]).checkClock = .ok () ∧
    ((demoRecord.observeAll [⟨1001, 1, true⟩, ⟨1001, 18446744073709551615, true⟩]).addTask
      "00000000000000000000000000000003" none).1 = .ok () := by
  decide +kernel

theorem onlySpends_iff_demo : demoRecord.OnlySpends [⟨1001, 1, true⟩, ⟨21601000, 1, true⟩] ↔
    ∀ before call, before ++ [call] <+: [⟨1001, 1, true⟩, ⟨21601000, 1, true⟩] →
      (demoRecord.observeAll before).Counted call :=
  AccountingRecord.onlySpends_iff (by decide +kernel) _

end Kinewright.Accounting
