import Kinewright.Attention.Answers
import Kinewright.Lib.Runs

/-!
# Runs in which no two requests meet

The flags of grants are apart from those of registrations, so that a call of one task leaves the observers of
the others as they are. From it what holds in every run in which no two requests of a run meet under one
identity.
-/

namespace Kinewright.Attention

open Fallible AttentionState Runs KeyedMap AttentionState

variable {digest : RuntimeRequest → String} {s s' : AttentionState}

/-! ## Flags of grants -/

/-- The flag was given out, and not to a registration that is there. -/
def Granted (s : AttentionState) (flag : Flag) : Prop :=
  flag < s.nextFlag ∧ ∀ key pending, s.requests.get? key = some pending → pending.revoked ≠ flag

/-- The flags of grants and of observers are no registration's. -/
structure Apart (s : AttentionState) : Prop where
  grants : ∀ binding flag, s.grants.get? binding = some flag → Granted s flag
  observers : ∀ id observer, s.observers.get? id = some observer → Granted s observer.revoked

theorem apart_empty : Apart .empty where
  grants binding flag h := by cases h
  observers id observer h := by cases h

/-- The registrations have the flags that they had, or new ones. -/
structure Flags (s s' : AttentionState) : Prop where
  next : s.nextFlag ≤ s'.nextFlag
  requests : ∀ key pending, s'.requests.get? key = some pending →
    (∃ old, s.requests.get? key = some old ∧ old.revoked = pending.revoked) ∨ pending.revoked = s.nextFlag

theorem Flags.granted (h : Flags s s') {flag : Flag} (hflag : Granted s flag) : Granted s' flag := by
  refine ⟨Nat.lt_of_lt_of_le hflag.1 h.next, ?_⟩
  intro key pending hget heq
  rcases h.requests key pending hget with ⟨old, hold, hsame⟩ | hnew
  · exact hflag.2 key old hold (hsame.trans heq)
  · exact Nat.ne_of_lt hflag.1 (heq.symm.trans hnew)

theorem Same.flags_same (h : Same s s') : Flags s s' where
  next := h.flags
  requests key pending hget := by
    left
    rw [h.requests] at hget
    exact ⟨pending, hget, rfl⟩

theorem flags_dropRequests {p : RunId × String → PendingAttention → Bool}
    (hrequests : s'.requests = (s.dropRequests p).requests) (hnext : s'.nextFlag = s.nextFlag) :
    Flags s s' where
  next := Nat.le_of_eq hnext.symm
  requests key pending hget := by
    left
    rw [hrequests] at hget
    exact ⟨pending, (get?_dropRequests.mp hget).1, rfl⟩

/-- A registration that is written back has its flag. -/
theorem flags_write {key : RunId × String} {pending pending' : PendingAttention}
    (hget : s.requests.get? key = some pending) (hsame : pending'.revoked = pending.revoked)
    (hrequests : s'.requests = s.requests.insert key pending') (hnext : s'.nextFlag = s.nextFlag) :
    Flags s s' where
  next := Nat.le_of_eq hnext.symm
  requests key' found hfound := by
    left
    rw [hrequests, get?_insert] at hfound
    split at hfound
    next hkey =>
      cases hfound
      exact ⟨pending, hkey ▸ hget, hsame.symm⟩
    next => exact ⟨found, hfound, rfl⟩

variable {id : ObserverId} {request : RuntimeRequest}

theorem flags_register {grant : RuntimeGrantBinding} {now : ℕ} :
    Flags s (s.register digest id grant request now) where
  next := Nat.le_succ _
  requests key pending hget := by
    rw [register, get?_insert] at hget
    split at hget
    · cases hget
      exact .inr rfl
    · exact .inl ⟨pending, hget, rfl⟩

variable {observer : HostRunObserver}

theorem flags_observed (call : Call) : Flags s (s.observed digest id observer call) := by
  cases call with
  | bind | drop => exact flags_dropRequests rfl rfl
  | request _ request now delegated =>
    show Flags s (s.onRuntimeRequest digest id observer request now delegated).1
    rcases onRuntimeRequest_cases digest s id observer request now delegated with heq | ⟨heq, _⟩
    · rw [heq]
      exact (Same.refl s).flags_same
    · rw [heq]
      exact flags_register
  | poll => exact Same.flags_same ⟨rfl, rfl, rfl, rfl, Nat.le_refl _⟩
  | result _ request outcome =>
    show Flags s (s.onRuntimeResponseResult observer.grant request outcome)
    unfold onRuntimeResponseResult
    simp only
    split
    next => exact (Same.refl s).flags_same
    next pending hget =>
      split
      · refine flags_write hget ?_ (rfl : _ = s.requests.insert _ { pending with submitted := none }) rfl
        rfl
      · exact flags_dropRequests rfl rfl
  | observe | answer | sync | revoke => exact (Same.refl s).flags_same

/-- No grant and no observer is new. -/
theorem Apart.of_flags (h : Apart s) (hflags : Flags s s')
    (hgrants : ∀ binding flag, s'.grants.get? binding = some flag → s.grants.get? binding = some flag)
    (hobservers : ∀ id observer, s'.observers.get? id = some observer →
      ∃ old, s.observers.get? id = some old ∧ old.revoked = observer.revoked) : Apart s' where
  grants binding flag hget := hflags.granted (h.grants binding flag (hgrants binding flag hget))
  observers id observer hget := by
    obtain ⟨old, hold, hsame⟩ := hobservers id observer hget
    rw [← hsame]
    exact hflags.granted (h.observers id old hold)

/-- A grant that is made has a new flag. -/
theorem apart_grant (hsound : Sound digest s) (h : Apart s) (binding : RuntimeGrantBinding) :
    Apart (s.grant binding).1 ∧ ∀ flag, (s.grant binding).2 = .ok flag → Granted (s.grant binding).1 flag := by
  have hkept : Apart s.keepGrants := by
    refine h.of_flags (Same.flags_same ⟨rfl, rfl, rfl, rfl, Nat.le_refl _⟩) ?_ ?_
    · intro binding flag hget
      exact (get?_filter_eq_some.mp hget).1
    · intro id observer hget
      exact ⟨observer, hget, rfl⟩
  unfold grant
  simp only
  split
  next flag hflag =>
    refine ⟨hkept, ?_⟩
    rintro _ ⟨⟩
    exact hkept.grants binding flag hflag
  split
  · refine ⟨hkept, ?_⟩
    rintro _ ⟨⟩
  next hnone _ =>
    have hnew : Granted { s.keepGrants with
        grants := s.keepGrants.grants.insert binding s.keepGrants.nextFlag
        nextFlag := s.keepGrants.nextFlag + 1 } s.nextFlag := by
      refine ⟨Nat.lt_succ_self _, ?_⟩
      intro key pending hget
      exact Nat.ne_of_lt (hsound.registered key pending hget).flag
    have hflags : Flags s.keepGrants { s.keepGrants with
        grants := s.keepGrants.grants.insert binding s.keepGrants.nextFlag
        nextFlag := s.keepGrants.nextFlag + 1 } :=
      Same.flags_same ⟨rfl, rfl, rfl, rfl, Nat.le_succ _⟩
    refine ⟨⟨?_, ?_⟩, ?_⟩
    · intro binding' flag hget
      rw [get?_insert] at hget
      split at hget
      · cases hget
        exact hnew
      · exact hflags.granted (hkept.grants binding' flag hget)
    · intro id observer hget
      exact hflags.granted (hkept.observers id observer hget)
    · rintro _ ⟨⟩
      exact hnew

theorem apart_runObserver (hsound : Sound digest s) (h : Apart s) (binding : RuntimeGrantBinding) :
    Apart (s.runObserver binding) := by
  obtain ⟨hgrant, hflag⟩ := apart_grant hsound h binding
  unfold runObserver
  split
  next heq =>
    rw [heq] at hgrant
    exact hgrant
  next flag heq =>
    rw [heq] at hgrant hflag
    have hnew := hflag flag rfl
    refine ⟨hgrant.grants, ?_⟩
    intro id observer hget
    rw [get?_insert] at hget
    split at hget
    · cases hget
      exact hnew
    · exact hgrant.observers id observer hget

/-- The observer that makes the call keeps its flag, and no other is touched. -/
theorem observers_observed {call : Call} {id' : ObserverId} (hget : s.observers.get? id = some observer) :
    (id' ≠ id → (s.observed digest id observer call).observers.get? id' = s.observers.get? id') ∧
    ∀ observer', (s.observed digest id observer call).observers.get? id' = some observer' →
      ∃ old, s.observers.get? id' = some old ∧ old.revoked = observer'.revoked := by
  have hsame (heq : (s.observed digest id observer call).observers = s.observers) :
      (id' ≠ id → (s.observed digest id observer call).observers.get? id' = s.observers.get? id') ∧
      ∀ observer', (s.observed digest id observer call).observers.get? id' = some observer' →
        ∃ old, s.observers.get? id' = some old ∧ old.revoked = observer'.revoked := by
    rw [heq]
    exact ⟨fun _ => rfl, fun observer' hobserver' => ⟨observer', hobserver', rfl⟩⟩
  cases call with
  | poll =>
    have hinsert : (s.observed digest id observer (.poll id)).observers.get? id' =
        if id' = id then some { observer with queue := observer.queue.tail }
        else s.observers.get? id' := get?_insert _ _ _ _
    show (id' ≠ id → (s.observed digest id observer (.poll id)).observers.get? id' = _) ∧
      ∀ observer', (s.observed digest id observer (.poll id)).observers.get? id' = some observer' → _
    rw [hinsert]
    refine ⟨fun hne => if_neg hne, ?_⟩
    intro observer' hobserver'
    split at hobserver'
    next hid =>
      cases hobserver'
      exact ⟨observer, hid ▸ hget, rfl⟩
    next => exact ⟨observer', hobserver', rfl⟩
  | drop =>
    have herase : (s.observed digest id observer (.drop id)).observers.get? id' =
        if id' = id then none else s.observers.get? id' := get?_erase _ _ _
    show (id' ≠ id → (s.observed digest id observer (.drop id)).observers.get? id' = _) ∧
      ∀ observer', (s.observed digest id observer (.drop id)).observers.get? id' = some observer' → _
    rw [herase]
    refine ⟨fun hne => if_neg hne, ?_⟩
    intro observer' hobserver'
    split at hobserver'
    next => cases hobserver'
    next => exact ⟨observer', hobserver', rfl⟩
  | request _ request now delegated =>
    refine hsame ?_
    show (s.onRuntimeRequest digest id observer request now delegated).1.observers = _
    rcases onRuntimeRequest_cases digest s id observer request now delegated with heq | ⟨heq, _⟩
    · rw [heq]
    · rw [heq]
      rfl
  | result _ request outcome =>
    refine hsame ?_
    show (s.onRuntimeResponseResult observer.grant request outcome).observers = _
    unfold onRuntimeResponseResult
    simp only
    split
    · rfl
    split <;> rfl
  | bind | observe | answer | sync | revoke => exact hsame rfl

theorem grants_observed {call : Call} : (s.observed digest id observer call).grants = s.grants := by
  cases call with
  | request _ request now delegated =>
    show (s.onRuntimeRequest digest id observer request now delegated).1.grants = _
    rcases onRuntimeRequest_cases digest s id observer request now delegated with heq | ⟨heq, _⟩
    · rw [heq]
    · rw [heq]
      rfl
  | result _ request outcome =>
    show (s.onRuntimeResponseResult observer.grant request outcome).grants = _
    unfold onRuntimeResponseResult
    simp only
    split
    · rfl
    split <;> rfl
  | bind | poll | drop | observe | answer | sync | revoke => rfl

theorem observers_trySend {id' : ObserverId} {control : RuntimeResponseControl}
    {observers : KeyedMap ObserverId HostRunObserver} (h : s.trySend id control = some observers)
    (hget : observers.get? id' = some observer) :
    ∃ old, s.observers.get? id' = some old ∧ old.revoked = observer.revoked := by
  unfold trySend at h
  split at h
  next => cases h
  next found hfound =>
    split at h
    next =>
      cases h
      rw [get?_insert] at hget
      split at hget
      next hid =>
        cases hget
        exact ⟨found, hid ▸ hfound, rfl⟩
      next => exact ⟨observer, hget, rfl⟩
    next => cases h

/-! ## Runs -/

/-- One call, which is always possible. -/
def AttentionState.step (digest : RuntimeRequest → String) (s : AttentionState) (call : Call) : Option AttentionState :=
  some (s.call digest call)

theorem apart_call (hsound : Sound digest s) (h : Apart s) (call : Call) : Apart (s.call digest call) := by
  have hobserver {id : ObserverId} {call : Call} (hid : call.observer? = some id) :
      Apart (s.call digest call) := by
    rw [call_of_observer hid]
    split
    · exact h
    next observer hget =>
      refine h.of_flags (flags_observed call) ?_ fun id' => (observers_observed hget).2
      rw [grants_observed]
      exact fun binding flag hget => hget
  cases call with
  | observe binding => exact apart_runObserver hsound h binding
  | bind | request | poll | result | drop => exact hobserver rfl
  | answer admitted holder response now =>
    show Apart (s.resolveAttention admitted holder response now).1
    rcases resolveAttention_cases s admitted holder response now with heq |
      ⟨projection, pending, control, observers, rfl, hcheck, _, hsend, heq⟩
    · rw [heq]
      exact h
    · rw [heq]
      refine h.of_flags (flags_write (of_checkAnswer hsound hcheck).1 ?_ rfl rfl) (fun binding flag hget => hget) ?_
      · rfl
      · intro id observer hget
        exact observers_trySend hsend hget
  | sync projection now =>
    refine h.of_flags (Same.flags_same ⟨rfl, rfl, rfl, rfl, Nat.le_refl _⟩) ?_ ?_
    · intro binding flag hget
      exact (get?_filter_eq_some.mp hget).1
    · exact fun id observer hget => ⟨observer, hget, rfl⟩
  | revoke =>
    exact h.of_flags (Same.flags_same ⟨rfl, rfl, rfl, rfl, Nat.le_refl _⟩)
      (fun binding flag hget => hget) fun id observer hget => ⟨observer, hget, rfl⟩

/-- What the task of another observer is entitled to, it is entitled to after the call. -/
theorem entitled_call (hapart : Apart s) {call : Call} {id' : ObserverId} {other : HostRunObserver}
    (hid : call.observer? = some id) (hget : s.observers.get? id = some observer)
    (hother : s.observers.get? id' = some other) (htask : other.grant.task ≠ observer.grant.task)
    (hleaves : Leaves observer.grant s (s.call digest call)) (h : Entitled s other request) :
    (s.call digest call).observers.get? id' = some other ∧ Entitled (s.call digest call) other request := by
  have hne : id' ≠ id := by
    rintro rfl
    cases hget.symm.trans hother
    exact htask rfl
  refine ⟨?_, ⟨h.kind, ?_, ?_, h.task, h.attempt, h.ownerEpoch, ?_⟩⟩
  · rw [call_of_observer hid, hget]
    exact ((observers_observed hget).1 hne).trans hother
  · intro hset
    rcases hleaves.flags _ hset with hset | ⟨key, pending, hpending, _, hflag⟩
    · exact h.live hset
    · exact (hapart.observers id' other hother).2 key pending hpending hflag
  · intro hconsumed
    rcases hleaves.consumed _ _ hconsumed with hconsumed | ⟨_, hown⟩
    · exact h.fresh hconsumed
    · exact htask (h.task.symm.trans hown)
  · rw [hleaves.current _ ?_]
    · exact h.current
    · rw [h.task]
      exact fun heq => htask (Prod.mk.inj heq).2

/-- What holds of a registry that is reached, and of every call on it that heeds the registrations. -/
structure Answered (digest : RuntimeRequest → String) (s : AttentionState) : Prop where
  /-- A control that is queued answers a request that is registered, is not revoked, has not expired and is
  current, with the digest of the request that it carries. -/
  sends : ∀ call, Heeds s call → Sends digest s call (s.call digest call)
  /-- After a control for a registration, the next one waits until it is reported as revoked. -/
  alternates : ∀ flag, Alternates s flag
  current : ∀ key pending, s.requests.get? key = some pending →
    s.current.get? (key.1, pending.request.binding.task) = some pending.request.binding
  revokes : ∀ call, Heeds s call → Revokes s (s.call digest call)
  /-- A call of an observer leaves the registrations, the flags, what is remembered and what is current of
  other tasks. -/
  leaves : ∀ call, Heeds s call → ∀ id observer, call.observer? = some id →
    s.observers.get? id = some observer → Leaves observer.grant s (s.call digest call)
  /-- The task of another observer stays entitled to its requests. -/
  entitled : ∀ call, Heeds s call → ∀ id observer, call.observer? = some id →
    s.observers.get? id = some observer → ∀ id' other, s.observers.get? id' = some other →
    other.grant.task ≠ observer.grant.task → ∀ request, Entitled s other request →
    (s.call digest call).observers.get? id' = some other ∧ Entitled (s.call digest call) other request
  /-- A request that the task is entitled to is registered, unless the task has one of that identity. -/
  registers : ∀ id observer request now delegated, Heeds s (.request id request now delegated) →
    s.observers.get? id = some observer → Entitled s observer request →
    ∃ pending, (s.call digest (.request id request now delegated)).requests.get?
      (observer.grant.run, request.id) = some pending ∧ pending.grant.task = observer.grant.task ∧
      (s.requests.get? (observer.grant.run, request.id) = none → pending.request = request)

theorem registers_of_heeds {now : ℕ} {delegated : RuntimeResponse}
    (hheeds : Heeds s (.request id request now delegated))
    (hget : s.observers.get? id = some observer) (hentitled : Entitled s observer request) :
    ∃ pending, (s.call digest (.request id request now delegated)).requests.get?
      (observer.grant.run, request.id) = some pending ∧ pending.grant.task = observer.grant.task ∧
      (s.requests.get? (observer.grant.run, request.id) = none → pending.request = request) := by
  obtain ⟨hown, hroom⟩ := hheeds observer hget hentitled
  have hcall : s.call digest (.request id request now delegated) =
      (s.onRuntimeRequest digest id observer request now delegated).1 := by
    simp only [call, Call.observer?, hget]
    rfl
  rw [hcall]
  rcases hheld : s.requests.get? (observer.grant.run, request.id) with _ | pending
  · rw [registered_onRuntimeRequest hentitled (hroom hheld) hheld, register, get?_insert, if_pos rfl]
    exact ⟨_, rfl, rfl, fun _ => rfl⟩
  · refine ⟨pending, ?_, hown pending hheld, fun hnone => by cases hnone⟩
    rcases onRuntimeRequest_cases digest s id observer request now delegated with
      heq | ⟨_, _, _, hfree⟩
    · rw [heq]
      exact hheld
    · rw [hheld] at hfree
      cases hfree

/-- In every run in which the calls heed the registrations, answers go to the requests that they are given
to, one at a time, and no task touches the requests of another. -/
theorem answered_run (hrun : Run (step digest) Heeds .empty s) : Answered digest s := by
  have hall : Sound digest s ∧ Apart s := by
    refine hrun.invariant (I := fun s => Sound digest s ∧ Apart s) ?_ ⟨sound_empty, apart_empty⟩
    rintro s s' call ⟨hsound, hapart⟩ hheeds hstep
    cases hstep
    exact ⟨(keeps_call hsound call hheeds).sound, apart_call hsound hapart call⟩
  obtain ⟨hsound, hapart⟩ := hall
  exact {
    sends := fun call hheeds => (keeps_call hsound call hheeds).sends
    alternates := hsound.alternates
    current := fun key pending hget => (hsound.registered key pending hget).current
    revokes := fun call hheeds => (keeps_call hsound call hheeds).revokes
    leaves := fun call hheeds => (keeps_call hsound call hheeds).leaves
    entitled := fun call hheeds id observer hid hget id' other hother htask request hentitled =>
      entitled_call hapart hid hget hother htask
        ((keeps_call hsound call hheeds).leaves id observer hid hget) hentitled
    registers := fun id observer request now delegated hheeds hget hentitled =>
      registers_of_heeds hheeds hget hentitled }

/-! ## Two tasks of a run with one identity -/

def sampleGrant (task : TaskId) : RuntimeGrantBinding := ⟨"r", task, "1", 0⟩

def sampleRequest (task : TaskId) : RuntimeRequest :=
  ⟨"q", ⟨task, "1", "session", 0, 0⟩, .approval, "May it be rendered?"⟩

/-- Two tasks of the run are observed and bound, and the first presents its request. -/
def firstPresents : List Call :=
  [.observe (sampleGrant "a"), .observe (sampleGrant "b"), .bind 0 (some (sampleRequest "a").binding),
    .bind 1 (some (sampleRequest "b").binding), .request 0 (sampleRequest "a") 0 .pending]

def sampleState (calls : List Call) : AttentionState := calls.foldl (AttentionState.call RuntimeRequest.text) .empty

/-- The second task is entitled to its request, and it is not registered. -/
theorem second_request_not_registered : ¬ ∀ (digest : RuntimeRequest → String) (s : AttentionState),
    Run (step digest) (fun _ _ => True) .empty s →
    ∀ id observer request now delegated, s.observers.get? id = some observer →
      Entitled s observer request → s.size < 64 →
      ∃ pending, (s.call digest (.request id request now delegated)).requests.get?
        (observer.grant.run, request.id) = some pending ∧
        pending.grant.task = observer.grant.task := by
  intro hall
  have hafter : after (step RuntimeRequest.text) .empty firstPresents =
      some (sampleState firstPresents) := rfl
  obtain ⟨pending, hget, htask⟩ := hall RuntimeRequest.text _ (Run.refl.after hafter) 1
    ⟨sampleGrant "b", 1, []⟩ (sampleRequest "b") 0 .pending rfl
    ⟨by decide, by decide, by decide, rfl, rfl, rfl, rfl⟩ (by decide)
  cases hget
  exact absurd htask (by decide)

def sampleProjection : Projection := ⟨"r", fun _ => true, fun _ _ => true⟩

def sampleAnswer : LiveAttentionResponse := ⟨"r", "q", "May it be rendered?", 1, .approval true⟩

/-- One task presents its request, and a person approves it. -/
theorem answered_run_one_answer : ∃ s : AttentionState, Answered RuntimeRequest.text s ∧
    s.queue 0 = [⟨sampleRequest "a", .approvalDecision true, 7, 1, 300 * 10 ^ 9⟩] := by
  have hstart : Run (step RuntimeRequest.text) Heeds .empty .empty := .refl
  have hobserved := Run.step (Call.observe (sampleGrant "a")) hstart trivial rfl
  have hbound := Run.step (Call.bind 0 (some (sampleRequest "a").binding)) hobserved trivial rfl
  have hheeds : Heeds (sampleState [.observe (sampleGrant "a"), .bind 0 (some (sampleRequest "a").binding)])
      (Call.request 0 (sampleRequest "a") 0 .pending) := by
    rintro observer ⟨⟩ _
    refine ⟨?_, fun _ => by decide⟩
    rintro pending ⟨⟩
  have hpresented := Run.step (Call.request 0 (sampleRequest "a") 0 .pending) hbound hheeds rfl
  have hanswered := Run.step (Call.answer (.ok sampleProjection) 7 sampleAnswer 1) hpresented trivial rfl
  exact ⟨_, answered_run hanswered, rfl⟩

end Kinewright.Attention
