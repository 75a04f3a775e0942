import Kinewright.Accounting.Successor

/-!
# The sends of a task

A task takes every send once. The commands and the turns of its sends are all different, so what is sent again under a command is the
send it already has or is refused. Under a token limit a send is admitted only while the limit is not reached and what the earlier
sends have used is known.
-/

namespace Kinewright.Accounting

open Fallible List

namespace TaskAccounting

/-- The task after the calls. -/
def callAll (t : TaskAccounting) (calls : List TaskCall) : TaskAccounting := calls.foldl (fun t call => (call.call t).2) t

/-- What the send of a turn has used is known and complete. -/
def UsageKnown (t : TaskAccounting) (send : SendConsumption) : Prop :=
  ∃ totals, normalize (t.usage.filter fun sample => sample.attempt = send.attempt ∧ sample.turn = send.turn) = .ok totals ∧
    totals.tokensComplete

/-- What a task of a token limit finds when it admits a send. -/
structure WithinLimit (t : TaskAccounting) : Prop where
  lowerBound : ∀ cap ∈ t.tokenLimit, t.totals.tokenLowerBound < cap
  known : t.tokenLimit.isSome → ∀ old ∈ t.sends, t.UsageKnown old

/-- A send that the task does not have is admitted. -/
structure AdmitsSend (t : TaskAccounting) (send : SendConsumption) : Prop where
  consumed : t.consumeSend send = (.ok (), { t with sends := t.sends ++ [send] })
  command : ∀ old ∈ t.sends, old.command ≠ send.command
  turn : ∀ old ∈ t.sends, ¬ (old.attempt = send.attempt ∧ old.turn = send.turn)
  room : t.sends.length < taskSends
  limit : t.WithinLimit

/-- A task whose sends are all different, and whose totals are those of its usage. -/
structure Distinct (t : TaskAccounting) : Prop where
  room : t.sends.length ≤ taskSends
  commands : (t.sends.map SendConsumption.command).Nodup
  turns : (t.sends.map fun send => (send.attempt, send.turn)).Nodup
  totals : normalize t.usage = .ok t.totals

/-- What a call that is refused leaves of a task. A repair counts the failure, and it may pause the task. -/
structure Refused (t : TaskAccounting) (call : TaskCall) : Prop where
  unchanged : (∀ delivery attempt failure, call = .repair delivery attempt failure → ¬ isFailureDigest failure ∨ t.pause = some .replan) →
    (call.call t).2 = t
  repair : ∃ repairs lastFailure repeatedFailures pause, (call.call t).2 = { t with repairs, lastFailure, repeatedFailures, pause }

section

variable {t : TaskAccounting} {send : SendConsumption} {calls : List TaskCall}

theorem outstandingOf_eq_false {usage : List UsageSample} {sends : List SendConsumption} (h : outstandingOf usage sends = .ok false) :
    ∀ send ∈ sends, ∃ totals, normalize (usage.filter fun sample => sample.attempt = send.attempt ∧ sample.turn = send.turn) = .ok totals ∧
      totals.tokensComplete := by
  induction sends with
  | nil => exact forall_mem_nil _
  | cons send sends ih =>
    obtain ⟨totals, htotals, h⟩ := bind_eq_ok.mp h
    split at h
    · rename_i hcomplete
      exact forall_mem_cons.mpr ⟨⟨totals, htotals, hcomplete⟩, ih h⟩
    · cases h

/-- The checks of a send that is new. -/
theorem withinLimit_of_checkSend (h : t.checkSend send = .ok ()) :
    t.sends.length < taskSends ∧ t.WithinLimit ∧ ∀ old ∈ t.sends, ¬ (old.attempt = send.attempt ∧ old.turn = send.turn) := by
  unfold checkSend at h
  simp only [then_eq_ok, refuse_eq_ok] at h
  obtain ⟨-, -, hroom, -, -, -, hlimit, -, h⟩ := h
  have hsends : (t.tokenLimit.isSome → t.outstandingUsage = .ok false) ∧ ∀ old ∈ t.sends, ¬ (old.attempt = send.attempt ∧ old.turn = send.turn) := by
    split at h
    · obtain ⟨outstanding, houtstanding, h⟩ := bind_eq_ok.mp h
      simp only [then_eq_ok, refuse_eq_ok, not_or, Bool.not_eq_true] at h
      obtain ⟨hnone, -, hturn, -⟩ := h
      exact ⟨fun _ => hnone ▸ houtstanding, fun old hold heq => hturn ⟨old, hold, heq⟩⟩
    · rename_i hunlimited
      simp only [ok_bind, then_eq_ok, refuse_eq_ok, not_or] at h
      obtain ⟨-, -, hturn, -⟩ := h
      exact ⟨fun hsome => absurd hsome hunlimited, fun old hold heq => hturn ⟨old, hold, heq⟩⟩
  refine ⟨not_le.mp hroom, ⟨fun cap hcap => ?_, fun hsome => outstandingOf_eq_false (hsends.1 hsome)⟩, hsends.2⟩
  exact UInt64.not_le.mp fun hle => hlimit ⟨cap, hcap, hle⟩

/-- A send is a retry, is admitted, or is refused. -/
theorem consumeSend_cases (t : TaskAccounting) (send : SendConsumption) :
    (∃ old ∈ t.sends, old.command = send.command ∧ t.consumeSend send = (refuse (old ≠ send) .scope, t)) ∨
      t.AdmitsSend send ∨ ∃ reason, t.consumeSend send = (.error reason, t) := by
  rw [consumeSend]
  split
  · rename_i old hold
    exact .inl ⟨old, mem_of_find?_eq_some hold, by simpa using find?_some hold, rfl⟩
  · rename_i hnew
    split
    · rename_i reason _
      exact .inr (.inr ⟨reason, rfl⟩)
    · rename_i hcheck
      obtain ⟨hroom, hlimit, hturn⟩ := withinLimit_of_checkSend hcheck
      rw [find?_eq_none] at hnew
      refine .inr (.inl ⟨?_, fun old hold => by simpa using hnew old hold, hturn, hroom, hlimit⟩)
      rw [consumeSend, find?_eq_none.mpr hnew, hcheck]

/-- What a call changes of the sends, the usage and the totals. -/
theorem call_cases (t : TaskAccounting) (call : TaskCall) :
    ((call.call t).2.sends = t.sends ∧ (normalize t.usage = .ok t.totals → normalize (call.call t).2.usage = .ok (call.call t).2.totals)) ∨
      ∃ send, call = .consumeSend send ∧ t.AdmitsSend send ∧ (call.call t).2 = { t with sends := t.sends ++ [send] } := by
  cases call with
  | selectProvider provider =>
    obtain ⟨providers, -, heq⟩ := t.selectProvider_spec provider
    rw [TaskCall.call, heq]
    exact .inl ⟨rfl, id⟩
  | consumeSend send =>
    rw [TaskCall.call]
    rcases t.consumeSend_cases send with ⟨old, -, -, heq⟩ | hadmits | ⟨reason, heq⟩
    · rw [heq]
      exact .inl ⟨rfl, id⟩
    · exact .inr ⟨send, rfl, hadmits, congrArg Prod.snd hadmits.consumed⟩
    · rw [heq]
      exact .inl ⟨rfl, id⟩
  | repair delivery attempt failure =>
    obtain ⟨_, _, _, -, heq⟩ := t.repair_spec delivery attempt failure
    rw [TaskCall.call, heq]
    exact .inl ⟨rfl, id⟩
  | appendUsage sample =>
    rw [TaskCall.call, appendUsage]
    split
    · exact .inl ⟨rfl, id⟩
    · rename_i totals htotals
      exact .inl ⟨rfl, fun _ => htotals⟩

theorem distinct_fresh (task : SessionId) (tokenLimit : Option UInt64) : (fresh task tokenLimit).Distinct :=
  ⟨Nat.zero_le _, .nil, .nil, rfl⟩

theorem Distinct.call (h : t.Distinct) (call : TaskCall) : (call.call t).2.Distinct := by
  rcases t.call_cases call with ⟨hsends, htotals⟩ | ⟨send, -, hadmits, heq⟩
  · refine ⟨?_, ?_, ?_, htotals h.totals⟩
    · exact hsends ▸ h.room
    · exact hsends ▸ h.commands
    · exact hsends ▸ h.turns
  · rw [heq]
    refine ⟨?_, ?_, ?_, h.totals⟩
    · rw [length_append]
      exact hadmits.room
    · rw [map_append, nodup_append]
      refine ⟨h.commands, nodup_singleton _, ?_⟩
      rintro command hcommand _ hlast rfl
      obtain ⟨old, hold, rfl⟩ := mem_map.mp hcommand
      exact hadmits.command old hold (mem_singleton.mp hlast)
    · rw [map_append, nodup_append]
      refine ⟨h.turns, nodup_singleton _, ?_⟩
      rintro turn hturn _ hlast rfl
      obtain ⟨old, hold, rfl⟩ := mem_map.mp hturn
      exact hadmits.turn old hold (Prod.mk.inj (mem_singleton.mp hlast))

theorem callAll_concat (t : TaskAccounting) (calls : List TaskCall) (call : TaskCall) :
    t.callAll (calls ++ [call]) = (call.call (t.callAll calls)).2 := foldl_concat ..

theorem Distinct.callAll (h : t.Distinct) (calls : List TaskCall) : (t.callAll calls).Distinct := by
  induction calls generalizing t with
  | nil => exact h
  | cons call calls ih => exact ih (h.call call)

theorem tokenLimit_callAll (t : TaskAccounting) (calls : List TaskCall) : (t.callAll calls).tokenLimit = t.tokenLimit := by
  induction calls generalizing t with
  | nil => rfl
  | cons call calls ih => exact (ih _).trans (later_call t call).tokenLimit

/-- Every send of a task was admitted by one of the calls. By induction on the calls from the last one. -/
theorem admitted_of_mem (h : send ∈ (t.callAll calls).sends) (hnew : t.sends = []) :
    ∃ before after, calls = before ++ .consumeSend send :: after ∧ (t.callAll before).AdmitsSend send := by
  induction calls using List.reverseRecOn with
  | nil =>
    rw [callAll, foldl_nil, hnew] at h
    cases h
  | append_singleton calls call ih =>
    rw [callAll_concat] at h
    have hearlier (h : send ∈ (t.callAll calls).sends) :
        ∃ before after, calls ++ [call] = before ++ .consumeSend send :: after ∧ (t.callAll before).AdmitsSend send := by
      obtain ⟨before, after, rfl, hadmits⟩ := ih h
      exact ⟨before, after ++ [call], by simp, hadmits⟩
    rcases (t.callAll calls).call_cases call with ⟨hsends, -⟩ | ⟨last, rfl, hadmits, heq⟩
    · exact hearlier (hsends ▸ h)
    · rw [heq] at h
      rcases mem_append.mp h with h | h
      · exact hearlier h
      · obtain rfl := mem_singleton.mp h
        exact ⟨calls, [], rfl, hadmits⟩

/-- Under a command that the task has sent, the same send changes nothing and another one is refused. -/
theorem Distinct.resend (h : t.Distinct) {old : SendConsumption} (hold : old ∈ t.sends) (hcommand : send.command = old.command) :
    t.consumeSend send = (refuse (old ≠ send) .scope, t) := by
  rcases t.consumeSend_cases send with ⟨other, hother, hsame, heq⟩ | hadmits | ⟨reason, heq⟩
  · obtain rfl := inj_on_of_nodup_map h.commands hother hold (hsame.trans hcommand)
    exact heq
  · exact absurd hcommand.symm (hadmits.command old hold)
  · have hsome : ∃ other, (t.sends.find? fun old => old.command = send.command) = some other := by
      rw [← Option.isSome_iff_exists, find?_isSome]
      exact ⟨old, hold, by simp [hcommand]⟩
    obtain ⟨other, hother⟩ := hsome
    have hmem := mem_of_find?_eq_some hother
    have hsame : other.command = send.command := by simpa using find?_some hother
    obtain rfl := inj_on_of_nodup_map h.commands hmem hold (hsame.trans hcommand)
    rw [consumeSend, hother]

theorem refused_call {call : TaskCall} (h : (call.call t).1 ≠ .ok ()) : t.Refused call := by
  cases call with
  | selectProvider provider =>
    have heq : (t.selectProvider provider).2 = t := by
      rw [TaskCall.call, selectProvider] at h
      rw [selectProvider]
      split
      · rfl
      · rename_i hnew
        rw [hnew] at h
        split
        · rfl
        · rename_i hroom
          simp [hroom] at h
    exact ⟨fun _ => heq, _, _, _, _, heq⟩
  | consumeSend send =>
    have heq : (t.consumeSend send).2 = t := by
      rcases t.consumeSend_cases send with ⟨old, -, -, heq⟩ | hadmits | ⟨reason, heq⟩
      · rw [heq]
      · exact absurd (congrArg Prod.fst hadmits.consumed) h
      · rw [heq]
    exact ⟨fun _ => heq, _, _, _, _, heq⟩
  | repair delivery attempt failure =>
    refine ⟨fun hearly => ?_, ?_⟩
    · rw [TaskCall.call, repair]
      rcases hearly delivery attempt failure rfl with hdigest | hpaused
      · rw [if_pos hdigest]
      · by_cases hdigest : isFailureDigest failure
        · rw [if_neg (not_not_intro hdigest), if_pos hpaused]
        · rw [if_pos hdigest]
    · obtain ⟨repairs, lastFailure, repeatedFailures, -, heq⟩ := t.repair_spec delivery attempt failure
      exact ⟨repairs, lastFailure, repeatedFailures, _, heq⟩
  | appendUsage sample =>
    have heq : (t.appendUsage sample).2 = t := by
      rw [TaskCall.call, appendUsage] at h
      rw [appendUsage]
      split
      · rfl
      · rename_i htotals
        rw [htotals] at h
        exact absurd rfl h
    exact ⟨fun _ => heq, _, _, _, _, heq⟩

end

/-- The sends of a task that starts empty, after any calls. Each of them was admitted by a call, and what is sent under the command of
one of them is that one or is refused. -/
theorem sends_callAll (task : SessionId) (tokenLimit : Option UInt64) (calls : List TaskCall) :
    let t := (fresh task tokenLimit).callAll calls
    t.tokenLimit = tokenLimit ∧ t.Distinct ∧
      (∀ send ∈ t.sends, ∃ before after, calls = before ++ .consumeSend send :: after ∧ ((fresh task tokenLimit).callAll before).AdmitsSend send) ∧
      (∀ send ∈ t.sends, t.consumeSend send = (.ok (), t)) ∧
      (∀ old ∈ t.sends, ∀ send, send.command = old.command → send ≠ old → t.consumeSend send = (.error .scope, t)) ∧
      (∀ send, send ∉ t.sends → (t.consumeSend send).1 = .ok () → t.AdmitsSend send) ∧
      ∀ call, (call.call t).1 ≠ .ok () → t.Refused call := by
  intro t
  have hdistinct : t.Distinct := (distinct_fresh task tokenLimit).callAll calls
  refine ⟨tokenLimit_callAll _ calls, hdistinct, fun send hsend => admitted_of_mem hsend rfl, fun send hsend => ?_,
    fun old hold send hcommand hne => ?_, fun send hnew hok => ?_, fun call => refused_call⟩
  · rw [hdistinct.resend hsend rfl, refuse_eq_ok.mpr (not_not_intro rfl)]
  · rw [hdistinct.resend hold hcommand, refuse_eq_error.mpr ⟨hne.symm, rfl⟩]
  · rcases t.consumeSend_cases send with ⟨old, hold, -, heq⟩ | hadmits | ⟨reason, heq⟩
    · rw [heq] at hok
      obtain rfl := not_not.mp (refuse_eq_ok.mp hok)
      exact absurd hold hnew
    · exact hadmits
    · rw [heq] at hok
      cases hok

/-- The second repair of one failure pauses the task, and it is refused. -/
theorem paused_by_refused_repair : ¬ ∀ (task : SessionId) (tokenLimit : Option UInt64) (calls : List TaskCall) (call : TaskCall),
    (call.call ((fresh task tokenLimit).callAll calls)).1 ≠ .ok () →
      (call.call ((fresh task tokenLimit).callAll calls)).2 = (fresh task tokenLimit).callAll calls := by
  intro h
  let repair : TaskCall := .repair "delivery" "attempt" "0123456789abcdef0123456789abcdef0123456789abcdef0123456789abcdef"
  have hrefused : (repair.call ((fresh "task" none).callAll [repair])).1 ≠ .ok () := by decide +kernel
  have hpaused : (repair.call ((fresh "task" none).callAll [repair])).2.pause = some .replan := by decide +kernel
  have hfree : ((fresh "task" none).callAll [repair]).pause = none := by decide +kernel
  rw [h _ _ _ _ hrefused, hfree] at hpaused
  cases hpaused

end TaskAccounting

end Kinewright.Accounting
