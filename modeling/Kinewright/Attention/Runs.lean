import Kinewright.Attention.State

/-!
# Runs of the registry

What every call leaves of the registrations, and from it what holds over a run in which no two requests of a
run share an identity.
-/

namespace Kinewright.Attention

open Fallible AttentionState KeyedMap List

variable {digest : RuntimeRequest → String} {s s' : AttentionState}

/-! ## Registrations -/

/-- The registration is for the request that its key names, and that request is bound to its task as the
task now is. -/
structure Registered (digest : RuntimeRequest → String) (s : AttentionState) (key : RunId × String)
    (pending : PendingAttention) : Prop where
  named : key = (pending.grant.run, pending.request.id)
  task : pending.request.binding.task = pending.grant.task
  digested : pending.digest = digest pending.request
  current : s.current.get? (key.1, pending.request.binding.task) = some pending.request.binding
  flag : pending.revoked < s.nextFlag
  /-- After a control was queued for it, the registration waits until that is revoked. -/
  waits : pending.submitted = none → ∀ mark ∈ (s.marks.filter fun m => m.1 = pending.revoked).getLast?, mark.2 ≠ .queued

/-- No control is queued for the registration right after another. -/
def Alternates (s : AttentionState) (flag : Flag) : Prop :=
  (s.marks.filter fun mark => mark.1 = flag).IsChain fun mark mark' =>
    mark.2 = .queued → mark'.2 ≠ .queued

structure Sound (digest : RuntimeRequest → String) (s : AttentionState) : Prop where
  registered : ∀ key pending, s.requests.get? key = some pending → Registered digest s key pending
  apart : ∀ key key' pending pending', s.requests.get? key = some pending →
    s.requests.get? key' = some pending' → pending.revoked = pending'.revoked → key = key'
  below : ∀ mark ∈ s.marks, mark.1 < s.nextFlag
  alternates : ∀ flag, Alternates s flag

theorem sound_empty : Sound digest .empty where
  registered key pending h := by cases h
  apart key key' pending pending' h := by cases h
  below mark h := by cases h
  alternates flag := .nil

/-- The calls that only make observers and set flags. -/
theorem Sound.of_same (h : Sound digest s) (hrequests : s'.requests = s.requests)
    (hcurrent : s'.current = s.current) (hmarks : s'.marks = s.marks)
    (hflags : s.nextFlag ≤ s'.nextFlag) : Sound digest s' where
  registered key pending hget := by
    rw [hrequests] at hget
    obtain ⟨hkey, htask, hdigest, hnow, hflag, hwaits⟩ := h.registered key pending hget
    exact ⟨hkey, htask, hdigest, hcurrent ▸ hnow, Nat.lt_of_lt_of_le hflag hflags, hmarks ▸ hwaits⟩
  apart := by
    rw [hrequests]
    exact h.apart
  below mark hmark := by
    rw [hmarks] at hmark
    exact Nat.lt_of_lt_of_le (h.below mark hmark) hflags
  alternates flag := by
    unfold Alternates
    rw [hmarks]
    exact h.alternates flag

/-- The calls that only drop registrations, when the rest stay bound. -/
theorem Sound.of_filter (h : Sound digest s) {p : RunId × String → PendingAttention → Bool}
    (hrequests : s'.requests = s.requests.filter p) (hmarks : s'.marks = s.marks)
    (hflags : s'.nextFlag = s.nextFlag)
    (hcurrent : ∀ key pending, s.requests.get? key = some pending → p key pending = true →
      s'.current.get? (key.1, pending.request.binding.task) = some pending.request.binding) :
    Sound digest s' where
  registered key pending hget := by
    rw [hrequests, get?_filter_eq_some] at hget
    obtain ⟨hkey, htask, hdigest, _, hflag, hwaits⟩ := h.registered key pending hget.1
    exact ⟨hkey, htask, hdigest, hcurrent key pending hget.1 hget.2, hflags ▸ hflag, hmarks ▸ hwaits⟩
  apart key key' pending pending' hget hget' := by
    rw [hrequests, get?_filter_eq_some] at hget hget'
    exact h.apart key key' pending pending' hget.1 hget'.1
  below mark hmark := by
    rw [hmarks] at hmark
    rw [hflags]
    exact h.below mark hmark
  alternates flag := by
    unfold Alternates
    rw [hmarks]
    exact h.alternates flag

/-! ## What calls leave alone -/

/-- The grant is about the request's task. -/
def Own (grant : RuntimeGrantBinding) (key : RunId × String) (pending : PendingAttention) : Prop :=
  key.1 = grant.run ∧ pending.request.binding.task = grant.task

/-- What a call of an observer may do: it leaves the registrations of other tasks as they are, and a
registration of its own that it drops is revoked. -/
structure Leaves (grant : RuntimeGrantBinding) (s s' : AttentionState) : Prop where
  others : ∀ key pending, s.requests.get? key = some pending → ¬ Own grant key pending →
    s'.requests.get? key = some pending
  flags : ∀ flag ∈ s'.set, flag ∈ s.set ∨ ∃ key pending, s.requests.get? key = some pending ∧
    Own grant key pending ∧ pending.revoked = flag
  consumed : ∀ key binding, s'.consumed.get? key = some binding →
    s.consumed.get? key = some binding ∨ key.1 = grant.run ∧ binding.task = grant.task
  current : ∀ key, key ≠ (grant.run, grant.task) → s'.current.get? key = s.current.get? key

/-- A registration that is gone has its flag set. -/
def Revokes (s s' : AttentionState) : Prop :=
  ∀ key pending, s.requests.get? key = some pending →
    (∃ pending', s'.requests.get? key = some pending' ∧ pending'.revoked = pending.revoked) ∨ pending.revoked ∈ s'.set

section Dropping

variable {p : RunId × String → PendingAttention → Bool} {key : RunId × String}
  {pending : PendingAttention} {flag : Flag}

theorem mem_set_dropRequests : flag ∈ (s.dropRequests p).set ↔ flag ∈ s.set ∨
    ∃ key pending, s.requests.get? key = some pending ∧ p key pending = true ∧ pending.revoked = flag := by
  simp only [dropRequests, Finset.mem_union, Multiset.mem_toFinset, Multiset.mem_map,
    KeyedMap.values, Multiset.mem_filterMap]
  refine or_congr Iff.rfl ⟨?_, ?_⟩
  · rintro ⟨pending, ⟨key, _, hget⟩, rfl⟩
    obtain ⟨hget, hp⟩ := get?_filter_eq_some.mp hget
    exact ⟨key, pending, hget, hp, rfl⟩
  · rintro ⟨key, pending, hget, hp, rfl⟩
    have hkept := get?_filter_eq_some.mpr ⟨hget, hp⟩
    refine ⟨pending, ⟨key, ?_, hkept⟩, rfl⟩
    rw [Finset.mem_val, KeyedMap.mem_keys, hkept]
    rfl

theorem get?_dropRequests : (s.dropRequests p).requests.get? key = some pending ↔
    s.requests.get? key = some pending ∧ p key pending = false := by
  rw [dropRequests, get?_filter_eq_some, Bool.not_eq_true']

theorem revokes_dropRequests (hrequests : s'.requests = (s.dropRequests p).requests)
    (hset : s'.set = (s.dropRequests p).set) : Revokes s s' := by
  intro key pending hget
  rcases hp : p key pending with _ | _
  · left
    rw [hrequests]
    exact ⟨pending, get?_dropRequests.mpr ⟨hget, hp⟩, rfl⟩
  · right
    rw [hset]
    exact mem_set_dropRequests.mpr (.inr ⟨key, pending, hget, hp, rfl⟩)

end Dropping

/-! ## Bindings -/

section Binding

variable (grant : RuntimeGrantBinding) (binding : Option RuntimeRequestBinding)

/-- The registrations of the task that are bound otherwise are dropped. -/
theorem get?_onRuntimeBinding {key : RunId × String} {pending : PendingAttention} :
    (s.onRuntimeBinding grant binding).requests.get? key = some pending ↔ s.requests.get? key = some pending ∧
        (Own grant key pending → ownBinding grant binding = some pending.request.binding) := by
  show (s.dropRequests _).requests.get? key = some pending ↔ _
  rw [get?_dropRequests]
  refine and_congr Iff.rfl ?_
  simp only [Own, Bool.not_eq_false', Bool.or_eq_true, decide_eq_true_eq]
  tauto

theorem current_onRuntimeBinding : (s.onRuntimeBinding grant binding).current = match ownBinding grant binding with
    | some binding => s.current.insert (grant.run, grant.task) binding
    | none => s.current.erase (grant.run, grant.task) := rfl

theorem sound_onRuntimeBinding (h : Sound digest s) : Sound digest (s.onRuntimeBinding grant binding) := by
  refine h.of_filter (p := fun key pending => decide (key.1 ≠ grant.run) ||
    decide (pending.request.binding.task ≠ grant.task) ||
    decide (ownBinding grant binding = some pending.request.binding)) ?_ rfl rfl ?_
  · simp [onRuntimeBinding, dropRequests]
  · intro key pending hget hkeep
    have hnow := (h.registered key pending hget).current
    simp only [Bool.or_eq_true, decide_eq_true_eq] at hkeep
    have hown (hother : ¬ Own grant key pending) :
        (key.1, pending.request.binding.task) ≠ (grant.run, grant.task) := by
      intro heq
      exact hother (Prod.mk.inj heq)
    rw [current_onRuntimeBinding]
    by_cases hself : Own grant key pending
    · obtain ⟨hrun, htask⟩ := hself
      have hbinding : ownBinding grant binding = some pending.request.binding := by tauto
      rw [hbinding]
      simp [hrun, htask]
    · rcases hbinding : ownBinding grant binding with _ | b
      · rw [get?_erase, if_neg (hown hself), hnow]
      · rw [get?_insert, if_neg (hown hself), hnow]

theorem leaves_onRuntimeBinding : Leaves grant s (s.onRuntimeBinding grant binding) where
  others key pending hget hother := (get?_onRuntimeBinding grant binding).mpr ⟨hget, fun hown => absurd hown hother⟩
  flags flag hflag := by
    rcases mem_set_dropRequests.mp hflag with hflag | ⟨key, pending, hget, hp, rfl⟩
    · exact .inl hflag
    · refine .inr ⟨key, pending, hget, ?_, rfl⟩
      simp only [Bool.not_eq_true', Bool.or_eq_false_iff, decide_eq_false_iff_not, not_not] at hp
      exact hp.1
  consumed key binding' hget := by
    left
    exact (get?_filter_eq_some.mp hget).1
  current key hne := by
    rw [current_onRuntimeBinding]
    split
    · rw [get?_insert, if_neg hne]
    · rw [get?_erase, if_neg hne]

theorem revokes_onRuntimeBinding : Revokes s (s.onRuntimeBinding grant binding) := revokes_dropRequests rfl rfl

end Binding

/-! ## Requests -/

section Requests

variable {id : ObserverId} {grant : RuntimeGrantBinding} {request : RuntimeRequest} {now : ℕ}

/-- A request of the task is registered as the task is bound now. -/
theorem sound_register (h : Sound digest s) (htask : request.binding.task = grant.task)
    (hcurrent : s.current.get? (grant.run, request.binding.task) = some request.binding) :
    Sound digest (s.register digest id grant request now) where
  registered key pending hget := by
    rw [register, get?_insert] at hget
    split at hget
    next hkey =>
      cases hget
      subst hkey
      refine ⟨rfl, htask, rfl, hcurrent, Nat.lt_succ_self _, ?_⟩
      intro _ mark hmark
      have hmem := mem_of_getLast? hmark
      obtain ⟨hmark, hflag⟩ := mem_filter.mp hmem
      have hbelow := h.below mark hmark
      rw [of_decide_eq_true hflag] at hbelow
      exact absurd hbelow (Nat.lt_irrefl _)
    next hkey =>
      obtain ⟨hnamed, htask', hdigest, hnow, hflag, hwaits⟩ := h.registered key pending hget
      exact ⟨hnamed, htask', hdigest, hnow, Nat.lt_succ_of_lt hflag, hwaits⟩
  apart key key' pending pending' hget hget' hflag := by
    rw [register, get?_insert] at hget hget'
    split at hget
    next hkey =>
      cases hget
      split at hget'
      next hkey' => exact hkey.trans hkey'.symm
      next hkey' =>
        have hlt := (h.registered key' pending' hget').flag
        rw [← hflag] at hlt
        exact absurd hlt (Nat.lt_irrefl _)
    next hkey =>
      split at hget'
      next hkey' =>
        cases hget'
        have hlt := (h.registered key pending hget).flag
        rw [hflag] at hlt
        exact absurd hlt (Nat.lt_irrefl _)
      next hkey' => exact h.apart key key' pending pending' hget hget' hflag
  below mark hmark := Nat.lt_succ_of_lt (h.below mark hmark)
  alternates flag := h.alternates flag

/-- What a request does: nothing, or it is registered under a key that was free. -/
theorem onRuntimeRequest_cases (digest : RuntimeRequest → String) (s : AttentionState)
    (id : ObserverId) (observer : HostRunObserver) (request : RuntimeRequest) (now : ℕ)
    (delegated : RuntimeResponse) :
    (s.onRuntimeRequest digest id observer request now delegated).1 = s ∨
    (s.onRuntimeRequest digest id observer request now delegated).1 = s.register digest id observer.grant request now ∧
      request.binding.task = observer.grant.task ∧
      s.current.get? (observer.grant.run, request.binding.task) = some request.binding ∧
      s.requests.get? (observer.grant.run, request.id) = none := by
  unfold onRuntimeRequest
  simp only
  split
  · exact .inl rfl
  split
  · exact .inl rfl
  split
  · exact .inl rfl
  split
  · exact .inl rfl
  next hbound =>
  simp only [not_or, not_not] at hbound
  split
  · exact .inl rfl
  next hfree =>
  rw [Bool.not_eq_true, KeyedMap.contains, Option.isSome_eq_false_iff, Option.isNone_iff_eq_none] at hfree
  exact .inr ⟨rfl, hbound.1, hbound.2.2.2.1, hfree⟩

/-- The task of the observer is entitled to the request: it is one that a person answers, it is bound as the
task is now, and it was not answered before. -/
structure Entitled (s : AttentionState) (observer : HostRunObserver) (request : RuntimeRequest) : Prop where
  kind : request.kind ≠ .question
  live : observer.revoked ∉ s.set
  fresh : s.consumed.get? (observer.grant.run, request.id) ≠ some request.binding
  task : request.binding.task = observer.grant.task
  attempt : request.binding.attempt = observer.grant.attempt
  ownerEpoch : request.binding.ownerEpoch = observer.grant.ownerEpoch
  current : s.current.get? (observer.grant.run, request.binding.task) = some request.binding

/-- A request that the task is entitled to is registered, if its key is free and there is room. -/
theorem registered_onRuntimeRequest {observer : HostRunObserver} {delegated : RuntimeResponse}
    (h : Entitled s observer request) (hroom : s.size < 64)
    (hfree : s.requests.get? (observer.grant.run, request.id) = none) :
    (s.onRuntimeRequest digest id observer request now delegated).1 =
      s.register digest id observer.grant request now := by
  unfold onRuntimeRequest
  rw [if_neg h.kind, if_neg h.live, if_neg h.fresh, if_neg (by
    simp only [not_or, not_not, not_le]
    exact ⟨h.task, h.attempt, h.ownerEpoch, h.current, hroom⟩), if_neg]
  rw [KeyedMap.contains, hfree]
  exact Bool.false_ne_true

end Requests

/-! ## Results -/

section Results

variable {grant : RuntimeGrantBinding} {key : RunId × String} {pending : PendingAttention}
  {request : RuntimeRequest}

/-- A registration is written back with another answer, and marked. -/
theorem sound_write (h : Sound digest s) (hget : s.requests.get? key = some pending)
    {submitted : Option (AttachmentId × LiveAttentionResponse)} {mark : Mark}
    (hrequests : s'.requests = s.requests.insert key { pending with submitted := submitted })
    (hcurrent : s'.current = s.current) (hflags : s'.nextFlag = s.nextFlag)
    (hmarks : s'.marks = s.marks ++ [(pending.revoked, mark)])
    (hmark : submitted = none → mark ≠ .queued)
    (hfree : mark = .queued → pending.submitted = none) : Sound digest s' := by
  have hold := h.registered key pending hget
  have hlast (flag : Flag) : s'.marks.filter (fun m => m.1 = flag) =
      s.marks.filter (fun m => m.1 = flag) ++ if pending.revoked = flag then [(pending.revoked, mark)]
        else [] := by
    rw [hmarks]
    by_cases hflag : pending.revoked = flag
    · simp [hflag]
    · simp [hflag]
  refine ⟨?_, ?_, ?_, ?_⟩
  · intro key' pending' hget'
    rw [hrequests, get?_insert] at hget'
    split at hget'
    next hkey =>
      cases hget'
      subst hkey
      refine ⟨hold.named, hold.task, hold.digested, hcurrent ▸ hold.current, hflags ▸ hold.flag, ?_⟩
      intro hnone last hlast'
      rw [hlast, if_pos rfl, getLast?_concat] at hlast'
      cases hlast'
      exact hmark hnone
    next hkey =>
      have hother := h.registered key' pending' hget'
      refine ⟨hother.named, hother.task, hother.digested, hcurrent ▸ hother.current, hflags ▸ hother.flag, ?_⟩
      have hne : pending.revoked ≠ pending'.revoked := fun heq =>
        hkey (h.apart key key' pending pending' hget hget' heq).symm
      rw [hlast, if_neg hne, append_nil]
      exact hother.waits
  · intro key₁ key₂ pending₁ pending₂ hget₁ hget₂ hflag
    have hback {key' : RunId × String} {pending' : PendingAttention} (hget' : s'.requests.get? key' = some pending') :
        ∃ old, s.requests.get? key' = some old ∧ old.revoked = pending'.revoked := by
      rw [hrequests, get?_insert] at hget'
      split at hget'
      next hkey =>
        cases hget'
        exact ⟨pending, hkey ▸ hget, rfl⟩
      next => exact ⟨pending', hget', rfl⟩
    obtain ⟨old₁, hold₁, heq₁⟩ := hback hget₁
    obtain ⟨old₂, hold₂, heq₂⟩ := hback hget₂
    exact h.apart key₁ key₂ old₁ old₂ hold₁ hold₂ (heq₁.trans (hflag.trans heq₂.symm))
  · intro m hm
    rw [hmarks] at hm
    rw [hflags]
    rcases mem_append.mp hm with hm | hm
    · exact h.below m hm
    · cases mem_singleton.mp hm
      exact hold.flag
  · intro flag
    unfold Alternates
    rw [hlast]
    split
    next hflag =>
      subst hflag
      rw [isChain_append]
      refine ⟨h.alternates _, isChain_singleton _, ?_⟩
      intro last hlast' first hfirst
      cases hfirst
      intro hqueued hmark'
      exact hold.waits (hfree hmark') last hlast' hqueued
    next =>
      rw [append_nil]
      exact h.alternates flag

/-- A reported request is the one that is registered, so that its registration is marked. -/
theorem sound_retract (h : Sound digest s) (hget : s.requests.get? key = some pending)
    (hsame : pending.request = request) : Sound digest (s.retract key pending request) :=
  sound_write h hget rfl rfl rfl (if_pos hsame) (fun _ => Mark.noConfusion) Mark.noConfusion

theorem sound_consume (h : Sound digest s) : Sound digest (s.consume key pending) := by
  refine h.of_filter (p := fun key' _ => !decide (key' = key)) ?_ rfl rfl ?_
  · rfl
  · intro key' pending' hget' _
    exact (h.registered key' pending' hget').current

section

variable (hget : s.requests.get? key = some pending)

include hget

theorem leaves_retract (hown : Own grant key pending) : Leaves grant s (s.retract key pending request) where
  others key' pending' hget' hother := by
    have hne : key' ≠ key := by
      rintro rfl
      cases hget.symm.trans hget'
      exact hother hown
    rw [retract, get?_insert, if_neg hne]
    exact hget'
  flags flag hflag := .inl hflag
  consumed key binding hbinding := .inl hbinding
  current key _ := rfl

theorem leaves_consume (hown : Own grant key pending) : Leaves grant s (s.consume key pending) where
  others key' pending' hget' hother := by
    refine get?_dropRequests.mpr ⟨hget', ?_⟩
    rw [decide_eq_false_iff_not]
    rintro rfl
    cases hget.symm.trans hget'
    exact hother hown
  flags flag hflag := by
    rcases mem_set_dropRequests.mp hflag with hflag | ⟨key', pending', hget', hp, rfl⟩
    · exact .inl hflag
    · cases of_decide_eq_true hp
      cases hget.symm.trans hget'
      exact .inr ⟨_, _, hget', hown, rfl⟩
  consumed key' binding hbinding := by
    rw [consume, get?_insert] at hbinding
    split at hbinding
    next hkey =>
      cases hbinding
      rw [hkey]
      exact .inr hown
    next => exact .inl hbinding
  current key _ := rfl

theorem revokes_retract : Revokes s (s.retract key pending request) := by
  intro key' pending' hget'
  left
  rw [retract, get?_insert]
  split
  next hkey =>
    subst hkey
    cases hget.symm.trans hget'
    exact ⟨_, rfl, rfl⟩
  next => exact ⟨pending', hget', rfl⟩

end

theorem revokes_consume : Revokes s (s.consume key pending) := revokes_dropRequests rfl rfl

end Results

end Kinewright.Attention
