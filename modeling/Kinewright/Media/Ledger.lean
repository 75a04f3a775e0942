import Kinewright.Media.Calls
import Kinewright.Media.Steps

/-!
# The byte ledger

K-1: `live` counts every byte once. A byte belongs to a reservation, to a discard that a reader has
still to serve, or to an owner outside who was handed it and gives it back through `release`. Every
phase of a post and every step of a reader moves bytes between these owners, and none makes or loses
any, so no release ever takes more than there is.
-/

namespace Kinewright.Media

open List

variable {K F E : Type}

/-! ## Discards -/

/-- The bytes of the frames that the readers have still to drop. -/
def discarding (slots : List (Slot K)) : ℕ := (slots.map Slot.discarding).sum

@[simp] theorem discarding_cons (slot : Slot K) (slots : List (Slot K)) :
    discarding (slot :: slots) = slot.discarding + discarding slots := rfl

theorem discarding_append (slots slots' : List (Slot K)) :
    discarding (slots ++ slots') = discarding slots + discarding slots' := by
  rw [discarding, map_append, sum_append]
  rfl

/-- A change of every slot that leaves its discard alone. -/
theorem discarding_map (f : Slot K → Slot K) (hf : ∀ slot, (f slot).discarding = slot.discarding)
    (slots : List (Slot K)) : discarding (slots.map f) = discarding slots := by
  rw [discarding, map_map]
  exact congrArg List.sum (map_congr_left fun slot _ => hf slot)

namespace Readers

/-- A change of one slot moves as many bytes as it moves in that slot. -/
theorem discarding_updateSlots {slots : List (Slot K)} {id : ℕ} {slot : Slot K}
    (hslot : (slots.find? fun slot => slot.id = id) = some slot) (f : Slot K → Slot K) :
    discarding (updateSlots slots id f) + slot.discarding = discarding slots + (f slot).discarding := by
  induction slots with
  | nil => cases hslot
  | cons other slots ih =>
    by_cases hid : other.id = id
    · rw [find?_cons_of_pos (by simpa using hid)] at hslot
      obtain rfl := Option.some.inj hslot
      simp only [updateSlots, if_pos hid, discarding_cons]
      omega
    · rw [find?_cons_of_neg (by simpa using hid)] at hslot
      have := ih hslot
      simp only [updateSlots, if_neg hid, discarding_cons]
      omega

/-- A change of one slot that leaves its discard alone. -/
theorem discarding_updateSlots_of_eq {f : Slot K → Slot K}
    (hf : ∀ slot, (f slot).discarding = slot.discarding) (slots : List (Slot K)) (id : ℕ) :
    discarding (updateSlots slots id f) = discarding slots := by
  induction slots with
  | nil => rfl
  | cons slot slots ih =>
    by_cases hid : slot.id = id
    · simp [updateSlots, if_pos hid, hf]
    · simp [updateSlots, if_neg hid, ih]

/-- A reader that goes takes its discard with it. -/
theorem discarding_eraseP {slots : List (Slot K)} {id : ℕ} {slot : Slot K}
    (hslot : (slots.find? fun slot => slot.id = id) = some slot) :
    discarding (slots.eraseP fun slot => slot.id = id) + slot.discarding = discarding slots := by
  induction slots with
  | nil => cases hslot
  | cons other slots ih =>
    by_cases hid : other.id = id
    · rw [find?_cons_of_pos (by simpa using hid)] at hslot
      obtain rfl := Option.some.inj hslot
      rw [eraseP_cons_of_pos (by simpa using hid), discarding_cons]
      omega
    · rw [find?_cons_of_neg (by simpa using hid)] at hslot
      have := ih hslot
      rw [eraseP_cons_of_neg (by simpa using hid), discarding_cons, discarding_cons]
      omega

/-- A pass over the slots that moves bytes between its state and each slot. -/
theorem threadSlots_discarding {σ : Type} {f : σ → Slot K → σ × Slot K} (bytes : σ → ℕ)
    (hf : ∀ s slot, bytes (f s slot).1 + (f s slot).2.discarding = bytes s + slot.discarding)
    (s : σ) (slots : List (Slot K)) :
    bytes (threadSlots f s slots).1 + discarding (threadSlots f s slots).2 = bytes s + discarding slots := by
  induction slots generalizing s with
  | nil => rfl
  | cons slot slots ih =>
    have hhere := hf s slot
    have hrest := ih (f s slot).1
    simp only [threadSlots, discarding_cons]
    omega

/-! ## The balance -/

/-- Every live byte belongs to a reservation, to a discard, or to an owner outside, and they fit in
the budget. -/
structure Balanced (budget : ℕ) (r : Readers K F E) (out : ℕ) : Prop where
  live : r.live = r.reserved.total id + discarding r.slots + out
  bound : r.live ≤ r.budget
  budget : r.budget = budget

variable {budget out n : ℕ} {r r' : Readers K F E}

/-- Readers with the same bytes have the same balance. -/
theorem Balanced.of_eq (h : Balanced budget r out) (hlive : r'.live = r.live)
    (hbudget : r'.budget = r.budget) (hreserved : r'.reserved = r.reserved)
    (hslots : discarding r'.slots = discarding r.slots) : Balanced budget r' out where
  live := by rw [hlive, hreserved, hslots, h.live]
  bound := by rw [hlive, hbudget]; exact h.bound
  budget := hbudget.trans h.budget

/-- Bytes that no reservation has any more are an owner's. -/
theorem Balanced.withReserved (h : Balanced budget r out) {reserved : KeyedMap (K × ℤ) ℕ}
    (hreserved : reserved.total id + n = r.reserved.total id) :
    Balanced budget { r with reserved } (out + n) where
  live := by
    have := h.live
    show r.live = reserved.total id + discarding r.slots + (out + n)
    omega
  bound := h.bound
  budget := h.budget

/-- Bytes that no slot discards any more are an owner's. -/
theorem Balanced.withSlots (h : Balanced budget r out) {slots : List (Slot K)}
    (hslots : discarding slots + n = discarding r.slots) :
    Balanced budget { r with slots } (out + n) where
  live := by
    have := h.live
    show r.live = r.reserved.total id + discarding slots + (out + n)
    omega
  bound := h.bound
  budget := h.budget

/-- An owner gives its bytes back. -/
theorem Balanced.release (h : Balanced budget r (out + n)) : Balanced budget (r.release n) out where
  live := by
    have := h.live
    show r.live - n = r.reserved.total id + discarding r.slots + out
    omega
  bound := (Nat.sub_le _ _).trans h.bound
  budget := h.budget

/-- An owner reserves bytes that fit. -/
theorem Balanced.reserve (h : Balanced budget r out) (hfits : r.live + n ≤ r.budget) :
    Balanced budget (r.reserve n r.budget).2 (out + n) := by
  have := h.live
  rw [Readers.reserve, if_pos hfits]
  refine ⟨?_, hfits, h.budget⟩
  show r.live + n = r.reserved.total id + discarding r.slots + (out + n)
  omega

/-- A change of one slot that leaves its discard alone. -/
theorem Balanced.updateSlot (h : Balanced budget r out) (id : ℕ) {f : Slot K → Slot K}
    (hf : ∀ slot, (f slot).discarding = slot.discarding) :
    Balanced budget (r.updateSlot id f) out :=
  h.of_eq rfl rfl rfl (discarding_updateSlots_of_eq hf _ _)

/-- A change of one slot after which it discards nothing: its discard is an owner's. -/
theorem Balanced.takeDiscard (h : Balanced budget r out) {id : ℕ} {slot : Slot K}
    (hslot : r.slot? id = some slot) {f : Slot K → Slot K} (hf : (f slot).discarding = 0) :
    Balanced budget (r.updateSlot id f) (out + slot.discarding) := by
  apply h.withSlots
  have := discarding_updateSlots hslot f
  omega

theorem takeReserved_total (reserved : KeyedMap (K × ℤ) ℕ) (p : K × ℤ → ℕ → Bool) :
    (takeReserved reserved p).1.total id + (takeReserved reserved p).2 = reserved.total id := by
  rw [Nat.add_comm]
  exact KeyedMap.total_filter_add reserved p

theorem lowerReserved_total (reserved : KeyedMap (K × ℤ) ℕ) (most : K × ℤ → ℕ → ℕ) :
    (lowerReserved reserved most).1.total id + (lowerReserved reserved most).2 = reserved.total id :=
  KeyedMap.total_map_add reserved (fun frame bytes => min bytes (most frame bytes))
    fun _ _ => min_le_left _ _

/-- Reservations that are taken are released. -/
theorem Balanced.takeReserved (h : Balanced budget r out) (p : K × ℤ → ℕ → Bool) : Balanced budget
      ({ r with reserved := (takeReserved r.reserved p).1 }.release (takeReserved r.reserved p).2)
      out :=
  (h.withReserved (takeReserved_total r.reserved p)).release

/-- What the reservations are lowered by is released. -/
theorem Balanced.lowerReserved (h : Balanced budget r out) (most : K × ℤ → ℕ → ℕ) : Balanced budget
      ({ r with reserved := (lowerReserved r.reserved most).1 }.release
        (lowerReserved r.reserved most).2)
      out :=
  (h.withReserved (lowerReserved_total r.reserved most)).release

variable [DecidableEq K]

theorem Balanced.unkept (h : Balanced budget r out) (key : K) (times : Finset ℤ) :
    Balanced budget (r.unkept key times) out :=
  h.lowerReserved _

/-! ## A post -/

/-- A discard takes the reservations of its frames. -/
theorem discardKept_total (reserved : KeyedMap (K × ℤ) ℕ) (slot : Slot K) (gone : Finset ℤ) (range : ℤ × ℤ) :
    (discardKept reserved slot gone range).1.total id + (discardKept reserved slot gone range).2.discarding
      = reserved.total id + slot.discarding := by
  have := takeReserved_total reserved fun frame _ => frame.1 = slot.key ∧ frame.2 ∈ gone
  simp only [discardKept]
  omega

section

variable (h : Balanced budget r out)

include h

theorem Balanced.discardOutside (keep : KeyedMap K (ℤ × ℤ)) : Balanced budget (r.discardOutside keep) out := by
  have hslot (reserved : KeyedMap (K × ℤ) ℕ) (slot : Slot K) : (discardOutsideSlot keep reserved slot).1.total id
          + (discardOutsideSlot keep reserved slot).2.discarding
        = reserved.total id + slot.discarding := by
    unfold discardOutsideSlot
    split
    · rfl
    · split
      · rfl
      · exact discardKept_total _ _ _ _
  have hbytes := threadSlots_discarding (fun reserved => reserved.total id) hslot r.reserved r.slots
  have := h.live
  refine ⟨?_, h.bound, h.budget⟩
  simp only [Readers.discardOutside] at hbytes ⊢
  omega

theorem Balanced.handOff (detached : List ℕ) : Balanced budget (r.handOff detached) out := by
  have hslot (s : KeyedMap (K × ℤ) ℕ × Finset (K × ℤ)) (slot : Slot K) :
      (handOffSlot r.wanted detached s slot).1.1.total id + (handOffSlot r.wanted detached s slot).2.discarding
        = s.1.total id + slot.discarding := by
    unfold handOffSlot
    split
    · rfl
    · exact discardKept_total _ _ _ _
  have hbytes := threadSlots_discarding (fun s => s.1.total id) hslot (r.reserved, ∅) r.slots
  have := h.live
  refine ⟨?_, h.bound, h.budget⟩
  show r.live = _ + _ + out
  rw [this, ← hbytes]
  rfl

theorem Balanced.returnUnrequired : Balanced budget r.returnUnrequired out := h.takeReserved _

theorem Balanced.recharge : Balanced budget r.recharge out := (h.takeReserved _).lowerReserved _

theorem Balanced.settle (continued : KeyedMap K (List ℤ))
    (keep : KeyedMap K (ℤ × ℤ)) : Balanced budget (r.settle continued keep) out := by
  have hjoined : Balanced budget (r.joinContinuation continued) out := h.of_eq rfl rfl rfl rfl
  have hreturned := (hjoined.discardOutside keep).returnUnrequired
  have hwindows : Balanced budget
      ((r.joinContinuation continued).discardOutside keep).returnUnrequired.dropWindows out :=
    hreturned.of_eq rfl rfl rfl rfl
  exact hwindows.recharge.of_eq rfl rfl rfl rfl

theorem Balanced.placeRegions (keepers : List (ℕ × ℕ)) (index : ℕ) (regions : List (K × Region × Option (List ℤ))) :
    Balanced budget (placeRegions keepers r index regions) out := by
  induction regions generalizing r index with
  | nil => exact h
  | cons entry regions ih =>
    apply ih
    rcases freeFor r.slots keepers index entry.1 entry.2.1 with _ | slot
    · exact h.of_eq rfl rfl rfl rfl
    · exact h.updateSlot slot.id fun _ => rfl

theorem Balanced.startReaders (now : ℕ) (waiting regions : List (K × Region)) (spawn : List (ℕ × K)) :
    Balanced budget (startReaders r now waiting spawn regions).1 out := by
  induction regions generalizing r waiting spawn with
  | nil => exact h
  | cons entry regions ih =>
    rw [Readers.startReaders]
    split
    · exact ih h _ _
    · apply ih
      exact h.of_eq rfl rfl rfl (discarding_append _ _)

end

omit [DecidableEq K] in
theorem retireObsolete_discarding (slot : Slot K) : (retireObsolete slot).discarding = slot.discarding := by
  unfold retireObsolete
  split
  · split <;> rfl
  · rfl

theorem Balanced.assign (h : Balanced budget r out) (now : ℕ) : Balanced budget (r.assign now).2 out := by
  refine (h.startReaders now [] r.pending []).of_eq rfl rfl rfl ?_
  simp only [Readers.assign]
  rw [discarding_map _ (fun slot => by split <;> rfl)]
  split
  · rfl
  · exact discarding_map _ retireObsolete_discarding _

omit [DecidableEq K] in
theorem discarding_clearPlans (r : Readers K F E) : discarding r.clearPlans.slots = discarding r.slots :=
  discarding_map (fun slot => { slot with plan := emptyPlan r.version, floor := none }) (fun _ => rfl) r.slots

theorem Balanced.postWithin (h : Balanced budget r out) (regions : List (K × Region))
    (sizes : KeyedMap K ℕ) (generated : ℕ) (detached : List ℕ) (now : ℕ) :
    Balanced budget (r.postWithin regions sizes generated detached now).2 out := by
  have hannounced : Balanced budget (r.announce regions sizes generated) out := h.of_eq rfl rfl rfl rfl
  rcases hfitted : (r.announce regions sizes generated).fitted regions detached with
    ⟨continued, keep⟩
  have hsettled := hannounced.settle continued keep
  have htrimmed : Balanced budget
      ((r.announce regions sizes generated).settle continued keep).trimRings out :=
    hsettled.of_eq rfl rfl rfl rfl
  have hcleared : Balanced budget
      ((r.announce regions sizes generated).settle continued keep).trimRings.clearPlans out :=
    htrimmed.of_eq rfl rfl rfl (discarding_clearPlans _)
  simp only [Readers.postWithin, hfitted]
  apply Balanced.assign
  exact ((hcleared.placeRegions _ 0 _).handOff detached).of_eq rfl rfl rfl rfl

theorem Balanced.postPlanned (h : Balanced budget r out) (planned : Planned K)
    (sizes : KeyedMap K ℕ) (generated : ℕ) (detached : List ℕ) (now : ℕ) :
    Balanced budget (r.postPlanned planned sizes generated detached now).2 out := by
  apply Balanced.postWithin
  exact h.of_eq rfl rfl rfl rfl

/-! ## A step of a reader -/

theorem Balanced.closed (h : Balanced budget r out) (id : ℕ) : Balanced budget (r.closed id) out := by
  unfold Readers.closed
  split
  · exact h
  · rename_i slot hslot
    exact (h.takeDiscard hslot rfl).release.unkept _ _

theorem Balanced.work [Weighed F] (h : Balanced budget r out) {slot : Slot K}
    {work : Except Bool (ℤ × Bool)} (hwork : Work r slot work r') : Balanced budget r' out := by
  cases hwork with
  | starved =>
    unfold starve
    split
    · exact h
    · exact h.of_eq rfl rfl rfl rfl
  | _ => exact h

/-- Lookahead that `work_for` finds fits in the budget. -/
theorem Work.fits [Weighed F] {slot : Slot K} {time : ℤ} (hwork : Work r slot (.ok (time, false)) r') :
    r'.live + (r'.sizes.get? slot.key).getD 0 ≤ r'.budget := by
  cases hwork with
  | lookahead hrequired hnext hfits =>
    simp only [admissible, decide_eq_true_eq] at hfits
    omega

/-- A decode takes its charge from a reservation, or reserves it. -/
theorem Balanced.chargeDecode (h : Balanced budget r out) (key : K) (time : ℤ) {required : Bool}
    (hfits : required = false → r.live + (r.sizes.get? key).getD 0 ≤ r.budget) :
    Balanced budget (r.chargeDecode key time required).2 (out + (r.chargeDecode key time required).1) := by
  cases required with
  | true =>
    apply h.withReserved
    have hbytes := @KeyedMap.total_erase_add _ _ id _ r.reserved (key, time)
    rwa [Option.map_id] at hbytes
  | false => exact h.reserve (hfits rfl)

theorem chargeDecode_slot? (key : K) (time : ℤ) (required : Bool) (id : ℕ) :
    (r.chargeDecode key time required).2.slot? id = r.slot? id := by
  unfold Readers.chargeDecode
  split
  · rfl
  · show ((r.reserve _ _).2).slot? id = _
    unfold Readers.reserve
    split <;> rfl

theorem Balanced.decode (h : Balanced budget r out) {id : ℕ} {slot : Slot K}
    (hslot : r.slot? id = some slot) (time : ℤ) {required : Bool}
    (hfits : required = false → r.live + (r.sizes.get? slot.key).getD 0 ≤ r.budget) :
    Balanced budget (r.decode id time required).2 (out + (r.decode id time required).1.handed) := by
  have hcharged := h.chargeDecode slot.key time hfits
  have hslot' : (r.chargeDecode slot.key time required).2.slot? id = some slot := by
    rw [chargeDecode_slot?, hslot]
  unfold Readers.decode
  rw [hslot]
  simp only [Next.handed, ← Nat.add_assoc]
  exact ((hcharged.takeDiscard hslot' rfl).unkept _ _).of_eq rfl rfl rfl rfl

omit [DecidableEq K] in
theorem back_discarding (slot : Slot K) : slot.back.discarding = slot.discarding := by
  unfold Slot.back
  split <;> rfl

/-- What a step hands out leaves the reservations and the discards. -/
theorem Balanced.stepped [Weighed F] (h : Balanced budget r out) {id now : ℕ} {slot : Slot K}
    {shutdown : Bool} {work : Except Bool (ℤ × Bool)} {step : Next}
    (hslot : r.slot? id = some slot.back)
    (hfits : ∀ time, work = .ok (time, false) → r.live + (r.sizes.get? slot.back.key).getD 0 ≤ r.budget)
    (hstep : Stepped r id slot now shutdown work step r') :
    Balanced budget r' (out + step.handed) := by
  cases hstep with
  | decode hstay hthreads => exact h.decode hslot _ fun hrequired => hfits _ (by rw [hrequired])
  | dispatch hstay hdiscard =>
    show Balanced budget _ (out + slot.discarding)
    rw [← back_discarding]
    exact h.takeDiscard hslot rfl
  | close => exact h
  | _ => exact h.updateSlot id fun _ => rfl

theorem Balanced.next [Weighed F] (h : Balanced budget r out) (id now : ℕ) (shutdown : Bool) :
    Balanced budget (r.next id now shutdown).2 (out + (r.next id now shutdown).1.handed) := by
  rcases hslot : r.slot? id with _ | slot
  · have hnone : r.next id now shutdown = (.retire, r) := by
      simp [Readers.next, Readers.workFor, hslot]
    rw [hnone]
    exact h
  · have hwork := work_workFor hslot
    have hworked : (r.workFor id).2.slot? id = some slot := by
      rw [slot?, hwork.slots_eq]
      exact hslot
    refine Balanced.stepped ((h.work hwork).updateSlot id back_discarding) ?_ ?_ (stepped_next hslot now shutdown)
    · rw [slot?_updateSlot back_id, if_pos rfl, hworked]
      rfl
    · intro time hlookahead
      rw [hlookahead] at hwork
      rw [back_key]
      exact hwork.fits

/-! ## Results -/

theorem Balanced.keepFrame (h : Balanced budget r out) (key : K) (time : ℤ) (frame : F) :
    Balanced budget (r.keepFrame key time frame).2 out := by
  unfold Readers.keepFrame
  split
  · apply Balanced.release
    have hbytes := @KeyedMap.total_erase_add _ _ id _ r.reserved (key, time)
    rw [Option.map_id] at hbytes
    exact (h.withReserved hbytes).of_eq rfl rfl rfl rfl
  · exact h

theorem Balanced.keepFailure (h : Balanced budget r out) (slot : Slot K) (time : ℤ) (version : ℕ)
    (error : E) : Balanced budget (r.keepFailure slot time version error).2 out := by
  unfold Readers.keepFailure
  split
  · exact h.of_eq rfl rfl rfl rfl
  · exact h

theorem Balanced.deliver (h : Balanced budget r out) (id : ℕ) (time : ℤ) (version : ℕ) (result : Except E F) (now : ℕ) :
    Balanced budget (r.deliver id time version result now).2 out := by
  unfold Readers.deliver
  split
  · exact h
  · exact h
  · rename_i slot frame hslot
    split
    · exact h.updateSlot id fun _ => rfl
    · exact (h.updateSlot id (f := fun slot => slot.finish now time) fun _ => rfl).keepFrame slot.key time frame
  · rename_i slot error hslot
    split
    · exact (h.updateSlot id (f := Slot.lose) fun _ => rfl).unkept slot.key slot.retained
    · exact ((h.updateSlot id (f := fun slot => slot.fail now _) fun _ => rfl).unkept slot.key
        slot.retained).keepFailure slot time version error

omit [DecidableEq K] in
theorem stop_discarding (slot : Slot K) (now : ℕ) : (slot.stop now).discarding = slot.discarding := by
  unfold Slot.stop
  split <;> rfl

section

variable (h : Balanced budget r out)

include h

theorem Balanced.stopped (id now : ℕ) : Balanced budget (r.stopped id now) out := by
  unfold Readers.stopped
  split
  · exact h
  · exact (h.updateSlot id fun slot => stop_discarding slot now).unkept _ _

theorem Balanced.unrequire (key : K) (gone : Finset ℤ) : Balanced budget (r.unrequire key gone) out := by
  apply Balanced.release
  exact (h.withReserved (takeReserved_total r.reserved _)).of_eq rfl rfl rfl rfl

theorem Balanced.clip (slot : Slot K) (t kept : ℤ) : Balanced budget (r.clip slot t kept) out := by
  have hplan := h.updateSlot slot.id (f := fun slot => slot.clip kept) fun _ => rfl
  have hwindow : Balanced budget
      ((r.updateSlot slot.id fun slot => slot.clip kept).clipWindow slot.key t kept) out :=
    hplan.of_eq rfl rfl rfl rfl
  exact (hwindow.unrequire slot.key _).of_eq rfl rfl rfl rfl

theorem Balanced.shortenUnavailable (key : K) (absent : Finset ℤ) :
    Balanced budget (r.shortenUnavailable key absent) out := by
  have hplans (gone : Finset ℤ) : Balanced budget (r.shortenPlans key gone) out := by
    refine h.of_eq rfl rfl rfl ?_
    exact discarding_map _ (fun slot => by split <;> rfl) r.slots
  exact ((hplans _).unrequire key _).of_eq rfl rfl rfl rfl

theorem Balanced.refilledExact (id : ℕ) (t : ℤ) (version : ℕ) (keptFrom : Option ℤ) (kept : Finset ℤ) :
    Balanced budget (r.refilledExact id t version keptFrom kept) out := by
  have hkept := h.updateSlot id (f := fun slot => slot.keepOnly kept) fun _ => rfl
  unfold Readers.refilledExact
  split
  · exact h
  · split
    · exact h
    · split
      · exact hkept.unkept _ _
      · split
        · exact hkept.clip _ _ _
        · exact (hkept.shortenUnavailable _ _).unkept _ _

end

/-! ## Admission -/

theorem Balanced.evict [Weighed F] (h : Balanced budget r out) (pinned : F → Bool) (need : ℕ)
    (victims : List (K × ℤ)) : Balanced budget (Readers.evict pinned r need victims).2 out := by
  induction victims generalizing r need with
  | nil => exact h
  | cons victim victims ih =>
    rw [Readers.evict]
    split
    · exact h
    · split
      · exact ih h need
      · apply ih
        exact h.of_eq rfl rfl rfl rfl

omit [DecidableEq K] in
theorem reserve_fits {limit : ℕ} (h : r.reserve n limit = (true, r')) :
    r.live + n ≤ limit ∧ r' = (r.reserve n limit).2 := by
  refine ⟨?_, by rw [h]⟩
  unfold Readers.reserve at h
  split at h
  · assumption
  · cases h

theorem reserved_eq_none_of_missing {frame : K × ℤ} (h : r.missing frame) : r.reserved.get? frame = none := by
  simp only [missing, decide_eq_true_eq] at h
  simpa [KeyedMap.contains] using h.2.2.1

/-- An admitted job's bytes are reserved for its missing frames, and its rasters are handed out. -/
theorem Balanced.admitRequired [Weighed F] (h : Balanced budget r out) {generated : ℕ} {pinned : F → Bool}
    {victims : List (K × ℤ)} {admission : Admission F}
    (hadmitted : r.admitRequired generated pinned victims = some (admission, r')) :
    Balanced budget r' (out + (Answer.admission admission : Answer K F E).handed) := by
  simp only [Readers.admitRequired] at hadmitted
  split at hadmitted
  · cases hadmitted
  · split at hadmitted
    · rename_i reserved hreserve
      obtain ⟨rfl, rfl⟩ := Prod.mk.inj (Option.some.inj hadmitted)
      obtain ⟨hfits, rfl⟩ := reserve_fits hreserve
      have htotal := @KeyedMap.total_extend _ _ r.reserved id _ (r.required.filter fun frame => r.missing frame)
        (fun frame => r.keptCharge frame.1 frame.2) fun frame hframe =>
          reserved_eq_none_of_missing (Finset.mem_filter.mp hframe).2
      have hlive := h.live
      rw [Readers.reserve, if_pos hfits]
      refine ⟨?_, hfits, h.budget⟩
      simp only [Answer.handed, htotal, id]
      omega
    · obtain ⟨rfl, rfl⟩ := Prod.mk.inj (Option.some.inj hadmitted)
      apply Balanced.evict
      exact h.of_eq rfl rfl rfl rfl

/-! ## Leaving -/

section

variable (h : Balanced budget r out)

include h

theorem Balanced.leave {id : ℕ} {slot : Slot K}
    (hslot : r.slot? id = some slot) : Balanced budget (r.leave slot) out := by
  obtain rfl := slot?_id hslot
  apply Balanced.unkept
  apply Balanced.release
  exact h.withSlots (discarding_eraseP hslot)

theorem Balanced.exited (id : ℕ) : Balanced budget (r.exited id) out := by
  unfold Readers.exited
  split
  · exact h
  · rename_i slot hslot
    exact h.leave hslot

theorem Balanced.failStart (id : ℕ) (error : E) : Balanced budget (r.failStart id error) out := by
  unfold Readers.failStart
  split
  · exact h
  · rename_i slot hslot
    refine Balanced.leave ?_ hslot
    exact h.of_eq rfl rfl rfl rfl

omit [DecidableEq K] in
theorem Balanced.retireAll : Balanced budget r.retireAll out := by
  have hreserved : Balanced budget { r with reserved := .empty } (out + r.reserved.total id) :=
    h.withReserved (Nat.zero_add _)
  apply Balanced.release
  exact hreserved.of_eq rfl rfl rfl
    (discarding_map (fun slot => { slot with state := .retiring }) (fun _ => rfl) r.slots)

omit [DecidableEq K] in
theorem Balanced.forget (keep : K → Bool) : Balanced budget (r.forget keep).2 out := by
  have hreserved := h.withReserved (takeReserved_total r.reserved fun frame _ => ¬ keep frame.1)
  apply Balanced.release
  refine hreserved.of_eq rfl rfl rfl ?_
  exact discarding_map _ (fun slot => by split <;> rfl) r.slots

theorem Balanced.clearCache (active : Bool) (now : ℕ) : Balanced budget (r.clearCache active now).2 out := by
  unfold Readers.clearCache
  split
  · exact h.of_eq rfl rfl rfl rfl
  · exact (h.postWithin [] .empty 0 [] now).forget fun _ => false

omit [DecidableEq K] in
theorem Balanced.adopt (bytes : ℕ) : Balanced budget (r.adopt bytes).2
      (out + (Answer.adopted bytes (r.adopt bytes).1 : Answer K F E).handed) := by
  unfold Readers.adopt
  split
  · exact h
  · by_cases hfits : r.live + bytes ≤ r.budget
    · have hreserved := h.reserve hfits
      rw [Readers.reserve, if_pos hfits] at hreserved ⊢
      exact hreserved
    · rw [Readers.reserve, if_neg hfits]
      exact h

end

/-! ## Runs -/

/-- A call moves bytes between their owners, and what it hands out is an owner's outside. -/
theorem Balanced.call [Weighed F] (h : Balanced budget r out) {call : Call K F E}
    {answer : Answer K F E} (hcall : r.call call = some (answer, r')) :
    Balanced budget r' (out + answer.handed) := by
  cases call with
  | admitRequired generated pinned victims =>
    obtain ⟨⟨admission, after⟩, hadmitted, heq⟩ := Option.map_eq_some_iff.mp hcall
    cases heq
    exact h.admitRequired hadmitted
  | hold windows kept | clearRings =>
    cases hcall
    exact h.of_eq rfl rfl rfl rfl
  | post planned sizes generated detached now =>
    cases hcall
    exact h.postPlanned planned sizes generated detached now
  | assign now =>
    cases hcall
    exact h.assign now
  | next id now shutdown =>
    cases hcall
    exact h.next id now shutdown
  | granted id permits now =>
    cases hcall
    exact h.updateSlot id fun _ => rfl
  | closed id =>
    cases hcall
    exact h.closed id
  | deliver id time version result now =>
    cases hcall
    exact h.deliver id time version result now
  | refilledExact id t version keptFrom kept =>
    cases hcall
    exact h.refilledExact id t version keptFrom kept
  | stopped id now =>
    cases hcall
    exact h.stopped id now
  | failStart id error =>
    cases hcall
    exact h.failStart id error
  | exited id =>
    cases hcall
    exact h.exited id
  | adopt bytes =>
    cases hcall
    exact h.adopt bytes
  | forget keep =>
    cases hcall
    exact h.forget keep
  | clearCache active now =>
    cases hcall
    exact h.clearCache active now
  | retireAll =>
    cases hcall
    exact h.retireAll

/-- An event of the ledger: a call, or an owner outside that gives bytes back. -/
inductive Event (K F E : Type)
  | call (call : Call K F E)
  | release (bytes : ℕ)

/-- One event, on the readers and on the bytes that owners outside were handed and have not given
back. An owner gives back nothing twice. -/
def ledgerStep [Weighed F] (s : Readers K F E × ℕ) : Event K F E → Option (Readers K F E × ℕ)
  | .call call => (s.1.call call).map fun result => (result.2, s.2 + result.1.handed)
  | .release bytes => if bytes ≤ s.2 then some (s.1.release bytes, s.2 - bytes) else none

theorem Balanced.ledgerStep [Weighed F] {s s' : Readers K F E × ℕ} {event : Event K F E}
    (h : Balanced budget s.1 s.2) (hstep : ledgerStep s event = some s') :
    Balanced budget s'.1 s'.2 := by
  cases event with
  | call call =>
    obtain ⟨⟨answer, after⟩, hcall, rfl⟩ := Option.map_eq_some_iff.mp hstep
    exact h.call hcall
  | release bytes =>
    simp only [Readers.ledgerStep, Option.ite_none_right_eq_some, Option.some.injEq] at hstep
    obtain ⟨hle, rfl⟩ := hstep
    apply Balanced.release
    rwa [Nat.sub_add_cancel hle]

theorem Balanced.run [Weighed F] {s s' : Readers K F E × ℕ} {events : List (Event K F E)}
    (h : Balanced budget s.1 s.2) (hrun : events.foldlM Readers.ledgerStep s = some s') :
    Balanced budget s'.1 s'.2 := by
  induction events generalizing s with
  | nil =>
    cases hrun
    exact h
  | cons event events ih =>
    obtain ⟨t, hstep, hrest⟩ := Option.bind_eq_some_iff.mp hrun
    exact ih (h.ledgerStep hstep) hrest

omit [DecidableEq K] in
theorem balanced_new (pool budget : ℕ) : Balanced budget (new pool budget : Readers K F E) 0 :=
  ⟨rfl, Nat.zero_le _, rfl⟩

/-- After every event of a run, the live bytes are the reservations, the discards of the slots and
what owners outside hold, and no owner gives back more than is live. They never exceed the budget. -/
theorem live_eq_owned [Weighed F] (pool budget : ℕ) (events : List (Event K F E)) {out : ℕ}
    {r : Readers K F E} (hrun : events.foldlM ledgerStep (new pool budget, 0) = some (r, out)) :
    r.live = r.reserved.total id + (r.slots.map Slot.discarding).sum + out ∧
      (∀ bytes ≤ out, bytes ≤ r.live) ∧ r.live ≤ budget := by
  have h := (balanced_new pool budget).run hrun
  have hlive : r.live = r.reserved.total id + discarding r.slots + out := h.live
  refine ⟨hlive, ?_, h.bound.trans h.budget.le⟩
  intro bytes hbytes
  omega

/-- A model frame of the tests. -/
structure Fr where
  value : ℕ
  bytes : ℕ

instance : Weighed Fr := ⟨Fr.bytes⟩

/-- A job of the tests: one required time and one lookahead time of a source. -/
def demoJob : Planned ℕ :=
  { regions := [(0, { required := [0], lookahead := [1], merged := false })]
    merged := 0
    folded := 0 }

/-- The job is posted and admitted, its reader opens and decodes the required time, and the frame
arrives, is followed by lookahead and goes again. -/
def ledgerDemo : List (Event ℕ Fr String) :=
  [.call (.post demoJob (KeyedMap.empty.insert 0 10) 5 [] 0), .call (.admitRequired 5 (fun _ => false) []),
    .call (.next 0 0 false),
    .call (.granted 0 (some 1) 0),
    .call (.next 0 0 false),
    .call (.deliver 0 0 1 (.ok { value := 7, bytes := 10 }) 0),
    .call (.next 0 0 false),
    .release 10]

theorem live_eq_owned_demo : ∃ r out, ledgerDemo.foldlM ledgerStep (new 2 50, 0) = some (r, out) ∧ r.live = 15 ∧
      r.live = r.reserved.total id + (r.slots.map Slot.discarding).sum + out := by
  have hsome : (ledgerDemo.foldlM ledgerStep (new 2 50, 0)).any fun s => s.1.live = 15 := by
    decide
  rcases hrun : ledgerDemo.foldlM ledgerStep (new 2 50, 0) with _ | ⟨r, out⟩
  · rw [hrun] at hsome
    cases hsome
  · rw [hrun] at hsome
    exact ⟨r, out, rfl, of_decide_eq_true hsome, (live_eq_owned 2 50 ledgerDemo hrun).1⟩

end Readers

end Kinewright.Media
