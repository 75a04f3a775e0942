import Kinewright.Attention.Runs

/-!
# Answers to live requests

What one call does to the registrations and to the queues, whoever makes it, when no two requests of a run
meet under one identity.
-/

namespace Kinewright.Attention

open Fallible AttentionState List KeyedMap

variable {digest : RuntimeRequest → String} {s s' : AttentionState}

/-! ## The calls that leave the registrations -/

/-- The registrations, what is current and what is remembered are as before. -/
structure Same (s s' : AttentionState) : Prop where
  requests : s'.requests = s.requests
  current : s'.current = s.current
  consumed : s'.consumed = s.consumed
  marks : s'.marks = s.marks
  flags : s.nextFlag ≤ s'.nextFlag

namespace Same

theorem refl (s : AttentionState) : Same s s := ⟨rfl, rfl, rfl, rfl, Nat.le_refl _⟩

theorem sound (h : Same s s') (hsound : Sound digest s) : Sound digest s' :=
  hsound.of_same h.requests h.current h.marks h.flags

theorem revokes (h : Same s s') : Revokes s s' := by
  intro key pending hget
  left
  rw [h.requests]
  exact ⟨pending, hget, rfl⟩

theorem leaves (h : Same s s') (hset : s'.set = s.set) (grant : RuntimeGrantBinding) : Leaves grant s s' where
  others key pending hget _ := by
    rw [h.requests]
    exact hget
  flags flag hflag := .inl (hset ▸ hflag)
  consumed key binding hget := .inl (h.consumed ▸ hget)
  current key _ := by rw [h.current]

end Same

theorem same_grant (binding : RuntimeGrantBinding) : Same s (s.grant binding).1 := by
  unfold grant
  simp only
  split
  · exact ⟨rfl, rfl, rfl, rfl, Nat.le_refl _⟩
  split
  · exact ⟨rfl, rfl, rfl, rfl, Nat.le_refl _⟩
  · exact ⟨rfl, rfl, rfl, rfl, Nat.le_succ _⟩

theorem observers_grant (binding : RuntimeGrantBinding) : (s.grant binding).1.observers = s.observers := by
  unfold grant
  simp only
  split
  · rfl
  split
  · rfl
  · rfl

theorem same_runObserver (binding : RuntimeGrantBinding) : Same s (s.runObserver binding) := by
  have hgrant := same_grant (s := s) binding
  unfold runObserver
  split
  next heq =>
    rw [heq] at hgrant
    exact hgrant
  next heq =>
    rw [heq] at hgrant
    exact ⟨hgrant.requests, hgrant.current, hgrant.consumed, hgrant.marks, hgrant.flags⟩

/-! ## Queues -/

/-- The controls that wait for an observer. One that is gone has none. -/
def AttentionState.queue (s : AttentionState) (id : ObserverId) : List RuntimeResponseControl :=
  (s.observers.get? id).elim [] HostRunObserver.queue

/-- The control is an answer that a person gives in this call, to a request that is registered, that is not
revoked and has not expired, and that is bound as its task is now. It carries the request with the digest
that is answered. -/
inductive Answers (digest : RuntimeRequest → String) (s : AttentionState) :
    Call → RuntimeResponseControl → Prop
  | intro {pending : PendingAttention} (projection : Projection) (holder : AttachmentId)
      (response : LiveAttentionResponse) (now : ℕ)
      (hget : s.requests.get? (response.run, response.requestId) = some pending)
      (hlive : pending.revoked ∉ s.set) (htime : now < pending.expires)
      (hcurrent : s.current.get? (response.run, pending.request.binding.task) = some pending.request.binding)
      (hdigest : response.bindingDigest = digest pending.request) :
      Answers digest s (.answer (.ok projection) holder response now)
        ⟨pending.request, response.answer.runtime, holder, pending.revoked, pending.expires⟩

/-- The controls that are put into queues are answers of this call, and each of them is marked. -/
def Sends (digest : RuntimeRequest → String) (s : AttentionState) (call : Call) (s' : AttentionState) :
    Prop :=
  ∃ sent : List (ObserverId × RuntimeResponseControl), (∀ entry ∈ sent, Answers digest s call entry.2) ∧
    (∀ id, s'.queue id <:+ s.queue id ++ (sent.filter fun entry => entry.1 = id).map Prod.snd) ∧
    s'.marks.filter (fun mark => mark.2 = .queued) = s.marks.filter (fun mark => mark.2 = .queued) ++
      sent.map fun entry => (entry.2.revoked, .queued)

variable {call : Call}

/-- The calls that send nothing. -/
theorem sends_none (hqueue : ∀ id, s'.queue id <:+ s.queue id)
    (hmarks : s'.marks.filter (fun mark => mark.2 = .queued) =
      s.marks.filter (fun mark => mark.2 = .queued)) : Sends digest s call s' := by
  refine ⟨[], ?_, ?_, ?_⟩
  · intro entry hentry
    cases hentry
  · intro id
    rw [filter_nil, map_nil, append_nil]
    exact hqueue id
  · rw [hmarks, map_nil, append_nil]

theorem queue_of_observers (h : s'.observers = s.observers) (id : ObserverId) : s'.queue id <:+ s.queue id := by
  unfold queue
  rw [h]

variable {id : ObserverId} {observer : HostRunObserver}

/-- The queue of one observer is the only one that changes. -/
theorem queue_of_insert (h : s'.observers = s.observers.insert id observer) (id' : ObserverId) :
    s'.queue id' = if id' = id then observer.queue else s.queue id' := by
  unfold queue
  rw [h, get?_insert]
  split <;> rfl

/-! ## Every call -/

/-- What an answer does: nothing, or it is queued and its registration waits for the result. -/
theorem resolveAttention_cases (s : AttentionState) (admitted : Except HostRefusal Projection)
    (holder : AttachmentId) (response : LiveAttentionResponse) (now : ℕ) :
    (s.resolveAttention admitted holder response now).1 = s ∨
    ∃ projection pending control observers, admitted = .ok projection ∧
      s.checkAnswer holder response projection now = .ok (pending, control) ∧
      pending.submitted = none ∧ s.trySend pending.sender control = some observers ∧
      (s.resolveAttention admitted holder response now).1 = { s with
        observers := observers
        requests := s.requests.insert (response.run, response.requestId)
          { pending with submitted := some (holder, response) }
        marks := s.marks ++ [(pending.revoked, .queued)] } := by
  rcases admitted with refusal | projection
  · exact .inl rfl
  unfold resolveAttention
  simp only
  rcases hcheck : s.checkAnswer holder response projection now with refusal | ⟨pending, control⟩
  · exact .inl rfl
  simp only
  rcases hsubmitted : pending.submitted with _ | submitted
  · rcases hsend : s.trySend pending.sender control with _ | observers
    · exact .inl rfl
    · exact .inr ⟨projection, pending, control, observers, rfl, hcheck, hsubmitted, hsend, rfl⟩
  · simp only
    split <;> exact .inl rfl

/-- An answer that passes its checks is one to a request that may be answered. -/
theorem of_checkAnswer {holder : AttachmentId} {response : LiveAttentionResponse}
    {projection : Projection} {now : ℕ} {pending : PendingAttention} {control : RuntimeResponseControl}
    (hsound : Sound digest s)
    (h : s.checkAnswer holder response projection now = .ok (pending, control)) :
    s.requests.get? (response.run, response.requestId) = some pending ∧ control.revoked = pending.revoked ∧
      Answers digest s (.answer (.ok projection) holder response now) control := by
  obtain ⟨found, hfound, h⟩ := bind_eq_ok.mp h
  have hget := okOr_eq_ok.mp hfound
  obtain ⟨_, hchecks, h⟩ := bind_eq_ok.mp h
  obtain ⟨_, _, h⟩ := bind_eq_ok.mp h
  cases h
  have hall := refuse_eq_ok.mp hchecks
  simp only [not_or, not_not, not_le] at hall
  obtain ⟨hlive, _, hdigest, htime, hcurrent, _⟩ := hall
  refine ⟨hget, rfl, ?_⟩
  rw [(hsound.registered _ _ hget).digested] at hdigest
  exact .intro projection holder response now hget hlive htime hcurrent hdigest

theorem queue_trySend {control : RuntimeResponseControl}
    {observers : KeyedMap ObserverId HostRunObserver} (h : s.trySend id control = some observers)
    (hobservers : s'.observers = observers) (id' : ObserverId) :
    s'.queue id' = s.queue id' ++ if id = id' then [control] else [] := by
  unfold trySend at h
  split at h
  next => cases h
  next observer hget =>
    split at h
    next =>
      cases h
      rw [queue_of_insert hobservers]
      by_cases hid : id' = id
      · subst hid
        rw [if_pos rfl, if_pos rfl, queue, hget]
        rfl
      · rw [if_neg hid, if_neg (Ne.symm hid), append_nil]
    next => cases h

/-- The condition on a call: while a request is registered, no request of another task is presented under its
identity, and no result of another task, or of a control for another request, is reported under it. A request
that its task is entitled to has room. -/
def Heeds (s : AttentionState) : Call → Prop
  | .request id request _ _ => ∀ observer, s.observers.get? id = some observer → Entitled s observer request →
      (∀ pending, s.requests.get? (observer.grant.run, request.id) = some pending →
        pending.grant.task = observer.grant.task) ∧
      (s.requests.get? (observer.grant.run, request.id) = none → s.size < 64)
  | .result id request outcome => ∀ observer, s.observers.get? id = some observer →
      ∀ pending, s.requests.get? (observer.grant.run, request.id) = some pending →
        pending.grant.task = observer.grant.task ∧ (outcome = .revoked → pending.request = request)
  | _ => True

/-- What a call keeps, and what it does to the queues and to the registrations. -/
structure Keeps (digest : RuntimeRequest → String) (s : AttentionState) (call : Call) (s' : AttentionState) : Prop where
  sound : Sound digest s'
  sends : Sends digest s call s'
  revokes : Revokes s s'
  leaves : ∀ id observer, call.observer? = some id → s.observers.get? id = some observer → Leaves observer.grant s s'

/-- The calls that leave the registrations, and are not an observer's or set no flag. -/
theorem Same.keeps (h : Same s s') (hsound : Sound digest s)
    (hqueue : ∀ id, s'.queue id <:+ s.queue id) (hset : call.observer? = none ∨ s'.set = s.set) :
    Keeps digest s call s' where
  sound := h.sound hsound
  sends := sends_none hqueue (by rw [h.marks])
  revokes := h.revokes
  leaves id observer hid _ := by
    rcases hset with hnone | hset
    · rw [hnone] at hid
      cases hid
    · exact h.leaves hset observer.grant

/-! ## Step by step -/

theorem queue_runObserver (binding : RuntimeGrantBinding) (id : ObserverId) :
    (s.runObserver binding).queue id <:+ s.queue id := by
  have hobservers := observers_grant (s := s) binding
  unfold runObserver
  split
  next heq =>
    rw [heq] at hobservers
    exact queue_of_observers hobservers id
  next s₁ flag heq =>
    rw [heq] at hobservers
    rw [queue_of_insert (s := s₁) rfl]
    split
    · exact nil_suffix
    · exact queue_of_observers hobservers id

theorem queue_pollRuntimeResponse (hget : s.observers.get? id = some observer) (id' : ObserverId) :
    (s.pollRuntimeResponse id observer).queue id' <:+ s.queue id' := by
  rw [queue_of_insert (s := s) rfl]
  split
  next hid =>
    rw [hid, queue, hget]
    exact tail_suffix _
  next => exact suffix_refl _

theorem queue_dropObserver (id' : ObserverId) : (s.dropObserver id observer).queue id' <:+ s.queue id' := by
  have hget : (s.dropObserver id observer).observers.get? id' =
      if id' = id then none else s.observers.get? id' := get?_erase _ _ _
  unfold queue
  rw [hget]
  split
  · exact nil_suffix
  · exact suffix_refl _

/-- An answer that is queued. -/
theorem keeps_answer (hsound : Sound digest s) (admitted : Except HostRefusal Projection)
    (holder : AttachmentId) (response : LiveAttentionResponse) (now : ℕ) :
    Keeps digest s (.answer admitted holder response now) (s.resolveAttention admitted holder response now).1 := by
  rcases resolveAttention_cases s admitted holder response now with heq |
    ⟨projection, pending, control, observers, rfl, hcheck, hfree, hsend, heq⟩
  · rw [heq]
    exact (Same.refl s).keeps hsound (fun id => suffix_refl _) (.inl rfl)
  · obtain ⟨hget, hrevoked, hanswers⟩ := of_checkAnswer hsound hcheck
    rw [heq]
    refine ⟨?_, ⟨[(pending.sender, control)], ?_, ?_, ?_⟩, ?_, ?_⟩
    · refine sound_write hsound hget rfl rfl rfl rfl ?_ fun _ => hfree
      intro hnone
      cases hnone
    · intro entry hentry
      cases mem_singleton.mp hentry
      exact hanswers
    · intro id
      rw [queue_trySend hsend rfl]
      by_cases hid : pending.sender = id
      · simp [hid]
      · simp [hid]
    · rw [filter_append, map_singleton, hrevoked]
      rfl
    · intro key pending' hget'
      left
      show ∃ new, (s.requests.insert _ _).get? key = some new ∧ _
      rw [get?_insert]
      split
      next hkey =>
        subst hkey
        cases hget.symm.trans hget'
        exact ⟨_, rfl, rfl⟩
      next => exact ⟨pending', hget', rfl⟩
    · intro id observer hid _
      cases hid

/-- A call of the observer that leaves what `Leaves` says, and sends nothing. -/
theorem keeps_observed (hid : call.observer? = some id) (hget : s.observers.get? id = some observer)
    (hsound : Sound digest s') (hqueue : ∀ id, s'.queue id <:+ s.queue id)
    (hmarks : s'.marks.filter (fun mark => mark.2 = .queued) =
      s.marks.filter (fun mark => mark.2 = .queued)) (hrevokes : Revokes s s')
    (hleaves : Leaves observer.grant s s') : Keeps digest s call s' where
  sound := hsound
  sends := sends_none hqueue hmarks
  revokes := hrevokes
  leaves id' observer' hid' hget' := by
    cases hid.symm.trans hid'
    cases hget.symm.trans hget'
    exact hleaves

/-- A request is registered under a key that was free, or nothing happens. -/
theorem keeps_register {request : RuntimeRequest} {now : ℕ} (hid : call.observer? = some id)
    (hget : s.observers.get? id = some observer) (hsound : Sound digest s)
    (htask : request.binding.task = observer.grant.task)
    (hcurrent : s.current.get? (observer.grant.run, request.binding.task) = some request.binding)
    (hfree : s.requests.get? (observer.grant.run, request.id) = none) :
    Keeps digest s call (s.register digest id observer.grant request now) := by
  have hold {key : RunId × String} {pending : PendingAttention} (hkey : s.requests.get? key = some pending) :
      (s.register digest id observer.grant request now).requests.get? key = some pending := by
    rw [register, get?_insert, if_neg]
    · exact hkey
    · rintro rfl
      rw [hfree] at hkey
      cases hkey
  refine keeps_observed hid hget (sound_register hsound htask hcurrent) (queue_of_observers rfl) rfl ?_ ?_
  · intro key pending hkey
    exact .inl ⟨pending, hold hkey, rfl⟩
  · exact ⟨fun key pending hkey _ => hold hkey, fun flag hflag => .inl hflag,
      fun key binding hbinding => .inl hbinding, fun key _ => rfl⟩

/-- The registration that a result is about is one of the task, and the reported request is its own. -/
theorem keeps_result {request : RuntimeRequest} {outcome : LiveResponseOutcome}
    (hget : s.observers.get? id = some observer) (hsound : Sound digest s)
    (hheeds : ∀ pending, s.requests.get? (observer.grant.run, request.id) = some pending →
      pending.grant.task = observer.grant.task ∧ (outcome = .revoked → pending.request = request)) :
    Keeps digest s (.result id request outcome) (s.onRuntimeResponseResult observer.grant request outcome) := by
  unfold onRuntimeResponseResult
  simp only
  split
  next => exact (Same.refl s).keeps hsound (fun id => suffix_refl _) (.inr rfl)
  next pending hpending =>
    obtain ⟨htask, hsame⟩ := hheeds pending hpending
    have hown : Own observer.grant (observer.grant.run, request.id) pending :=
      ⟨rfl, (hsound.registered _ _ hpending).task.trans htask⟩
    split
    next houtcome =>
      have hmarks : (s.retract (observer.grant.run, request.id) pending request).marks.filter
          (fun mark => mark.2 = .queued) = s.marks.filter fun mark => mark.2 = .queued := by
        rw [retract, if_pos (hsame houtcome), filter_append]
        exact append_nil _
      exact keeps_observed rfl hget (sound_retract hsound hpending (hsame houtcome))
        (queue_of_observers rfl) hmarks (revokes_retract hpending) (leaves_retract hpending hown)
    next =>
      exact keeps_observed rfl hget (sound_consume hsound) (queue_of_observers rfl) rfl
        revokes_consume (leaves_consume hpending hown)

theorem keeps_dropObserver (hget : s.observers.get? id = some observer) (hsound : Sound digest s) :
    Keeps digest s (.drop id) (s.dropObserver id observer) := by
  have hunbound : Sound digest (s.onRuntimeBinding observer.grant none) := sound_onRuntimeBinding _ _ hsound
  have hleaves := leaves_onRuntimeBinding (s := s) observer.grant none
  refine keeps_observed rfl hget (hunbound.of_same rfl rfl rfl (Nat.le_refl _))
    (fun id' => queue_dropObserver id') rfl ?_ ?_
  · exact revokes_onRuntimeBinding (s := s) observer.grant none
  · exact ⟨hleaves.others, hleaves.flags, hleaves.consumed, hleaves.current⟩

/-- A call of an observer, after the observer is found. -/
theorem call_of_observer (hid : call.observer? = some id) : s.call digest call = match s.observers.get? id with
      | none => s
      | some observer => s.observed digest id observer call := by
  cases call <;> cases hid <;> rfl

/-- What a call keeps of a sound registry, if it heeds the registrations. -/
theorem keeps_call (hsound : Sound digest s) (call : Call) (hheeds : Heeds s call) :
    Keeps digest s call (s.call digest call) := by
  have hobserver {id : ObserverId} {call : Call} (hid : call.observer? = some id)
      (hkeeps : ∀ observer, s.observers.get? id = some observer →
        Keeps digest s call (s.observed digest id observer call)) :
      Keeps digest s call (s.call digest call) := by
    rw [call_of_observer hid]
    split
    · exact (Same.refl s).keeps hsound (fun id => suffix_refl _) (.inr rfl)
    next observer hget => exact hkeeps observer hget
  cases call with
  | observe binding =>
    exact (same_runObserver binding).keeps hsound (queue_runObserver binding) (.inl rfl)
  | bind id binding =>
    refine hobserver rfl fun observer hget => ?_
    exact keeps_observed rfl hget (sound_onRuntimeBinding _ _ hsound) (queue_of_observers rfl) rfl
      (revokes_onRuntimeBinding _ _) (leaves_onRuntimeBinding _ _)
  | request id request now delegated =>
    refine hobserver rfl fun observer hget => ?_
    show Keeps digest s _ (s.onRuntimeRequest digest id observer request now delegated).1
    rcases onRuntimeRequest_cases digest s id observer request now delegated with
      heq | ⟨heq, htask, hcurrent, hfree⟩
    · rw [heq]
      exact (Same.refl s).keeps hsound (fun id => suffix_refl _) (.inr rfl)
    · rw [heq]
      exact keeps_register rfl hget hsound htask hcurrent hfree
  | poll id =>
    refine hobserver rfl fun observer hget => ?_
    have hsame : Same s (s.pollRuntimeResponse id observer) := ⟨rfl, rfl, rfl, rfl, Nat.le_refl _⟩
    exact hsame.keeps hsound (queue_pollRuntimeResponse hget) (.inr rfl)
  | result id request outcome =>
    refine hobserver rfl fun observer hget => ?_
    exact keeps_result hget hsound (hheeds observer hget)
  | drop id =>
    refine hobserver rfl fun observer hget => ?_
    exact keeps_dropObserver hget hsound
  | answer admitted holder response now => exact keeps_answer hsound admitted holder response now
  | sync projection now =>
    have hsame : Same s (s.syncGrants projection now) := ⟨rfl, rfl, rfl, rfl, Nat.le_refl _⟩
    exact hsame.keeps hsound (queue_of_observers rfl) (.inl rfl)
  | revoke =>
    have hsame : Same s s.revokeGrants := ⟨rfl, rfl, rfl, rfl, Nat.le_refl _⟩
    exact hsame.keeps hsound (queue_of_observers rfl) (.inl rfl)

end Kinewright.Attention
