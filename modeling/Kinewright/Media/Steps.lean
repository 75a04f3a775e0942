import Kinewright.Media.Decode

/-!
# What one step of a reader can do

`work_for` and `next` by cases: for each outcome, the state that it leaves and what held before it.
-/

namespace Kinewright.Media

open List

namespace Readers

variable {K F E : Type}

/-! ## Slots by id -/

theorem find?_updateSlots {f : Slot K → Slot K} (hf : ∀ slot, (f slot).id = slot.id)
    (slots : List (Slot K)) (id id' : ℕ) :
    ((updateSlots slots id f).find? fun slot => slot.id = id')
      = if id' = id then (slots.find? fun slot => slot.id = id').map f else slots.find? fun slot => slot.id = id' := by
  induction slots with
  | nil => simp [updateSlots]
  | cons slot slots ih =>
    by_cases hid : slot.id = id
    · by_cases hid' : slot.id = id'
      · simp [updateSlots, hid, hf, ← hid']
      · have hne : id' ≠ id := fun heq => hid' (hid.trans heq.symm)
        rw [updateSlots, if_pos hid, if_neg hne, find?_cons_of_neg (by simpa [hf] using hid'),
          find?_cons_of_neg (by simpa using hid')]
    · rw [updateSlots, if_neg hid]
      by_cases hid' : slot.id = id'
      · have hne : id' ≠ id := fun heq => hid (hid'.trans heq)
        simp [hid', hne]
      · rw [find?_cons_of_neg (by simpa using hid'), find?_cons_of_neg (by simpa using hid'), ih]

theorem slot?_updateSlot {f : Slot K → Slot K} (hf : ∀ slot, (f slot).id = slot.id) (r : Readers K F E) (id id' : ℕ) :
    (r.updateSlot id f).slot? id' = if id' = id then (r.slot? id').map f else r.slot? id' :=
  find?_updateSlots hf r.slots id id'

variable {r : Readers K F E} {id : ℕ} {slot : Slot K}

theorem slot?_id (h : r.slot? id = some slot) : slot.id = id := by
  simpa using find?_some h

theorem slot?_mem (h : r.slot? id = some slot) : slot ∈ r.slots := mem_of_find?_eq_some h

variable [DecidableEq K] [Weighed F]

/-! ## `work_for` -/

/-- What `work_for` finds for a reader, and the state that it leaves. -/
inductive Work (r : Readers K F E) (slot : Slot K) :
    Except Bool (ℤ × Bool) → Readers K F E → Prop
  | required {time : ℤ} (hfirst : (slot.plan.required.find? fun t => ¬ r.resolved slot.key t) = some time)
      (hstart : r.startable slot time) : Work r slot (.ok (time, true)) r
  | lookahead {time : ℤ} (hrequired : ∀ t ∈ slot.plan.required, r.resolved slot.key t)
      (hnext : r.nextLookahead slot = some time) (hfits : r.admissible slot.key) :
      Work r slot (.ok (time, false)) r
  | none : Work r slot (.error false) r
  | starved : Work r slot (.error true) (r.starve slot.key)

theorem work_workFor (hslot : r.slot? id = some slot) : Work r slot (r.workFor id).1 (r.workFor id).2 := by
  unfold workFor
  rw [hslot]
  dsimp only
  split
  · rename_i time hfirst
    split
    · rename_i hstart
      exact .required hfirst hstart
    · exact .none
  · rename_i hresolved
    have hrequired : ∀ t ∈ slot.plan.required, r.resolved slot.key t := by
      intro t ht
      simpa using find?_eq_none.mp hresolved t ht
    split
    · exact .none
    · rename_i time hnext
      split
      · rename_i hfits
        exact .lookahead hrequired hnext hfits
      · exact .starved

/-- Work that is found leaves the state as it was. -/
theorem Work.eq_of_ok {r' : Readers K F E} {found : ℤ × Bool} (h : Work r slot (.ok found) r') : r' = r := by
  cases h <;> rfl

/-- `work_for` changes nothing that it reads of the slots. -/
theorem Work.slots_eq {r' : Readers K F E} {work : Except Bool (ℤ × Bool)}
    (h : Work r slot work r') : r'.slots = r.slots := by
  cases h with
  | starved =>
    unfold starve
    split <;> rfl
  | _ => rfl

theorem Work.nextId_eq {r' : Readers K F E} {work : Except Bool (ℤ × Bool)}
    (h : Work r slot work r') : r'.nextId = r.nextId := by
  cases h with
  | starved =>
    unfold starve
    split <;> rfl
  | _ => rfl

/-! ## `next` -/

omit [DecidableEq K] in
theorem back_id (slot : Slot K) : slot.back.id = slot.id := by
  unfold Slot.back
  split <;> rfl

omit [DecidableEq K] in
theorem back_key (slot : Slot K) : slot.back.key = slot.key := by
  unfold Slot.back
  split <;> rfl

/-- What the next step of a reader does. The state before it has the reader's last job settled:
`r` is what `work_for` left of it, with the slot `back`. -/
inductive Stepped (r : Readers K F E) (id : ℕ) (slot : Slot K) (now : ℕ) (shutdown : Bool) :
    Except Bool (ℤ × Bool) → Next → Readers K F E → Prop
  | leave {work : Except Bool (ℤ × Bool)} (hleave : shutdown ∨ slot.state = .retiring) :
      Stepped r id slot now shutdown work .retire (r.retire id).2
  | queue {time : ℤ} {required : Bool} (hstay : slot.state ≠ .retiring) (hthreads : slot.threads = 0) :
      Stepped r id slot now shutdown (.ok (time, required)) (.openFor r.want)
        (r.updateSlot id fun slot => { slot with state := .permitWait })
  | close {work : Except Bool (ℤ × Bool)} (hstay : slot.state ≠ .retiring)
      (hthreads : 0 < slot.threads) : Stepped r id slot now shutdown work .close r
  | decode {time : ℤ} {required : Bool} (hstay : slot.state ≠ .retiring) (hthreads : 0 < slot.threads) :
      Stepped r id slot now shutdown (.ok (time, required)) (r.decode id time required).1 (r.decode id time required).2
  | dispatch {blocked : Bool} {keep : ℤ × ℤ} (hstay : slot.state ≠ .retiring) (hdiscard : slot.discard = some keep) :
      Stepped r id slot now shutdown (.error blocked) (.discard keep slot.discarding) (r.updateSlot id Slot.dispatch)
  | rest {blocked : Bool} (hstay : slot.state ≠ .retiring) (hdiscard : slot.discard = none)
      (hquiet : slot.obsolete ∨ ¬ r.owed id) :
      Stepped r id slot now shutdown (.error blocked) .retire (r.retire id).2
  | wait {blocked : Bool} {wake : ℕ} {state : ReaderState} (hstay : slot.state ≠ .retiring)
      (hdiscard : slot.discard = none) (hstate : state = .idle (slot.since now) ∨
        state = .budgetWait (slot.since now)) :
      Stepped r id slot now shutdown (.error blocked) (.wait wake) (r.updateSlot id fun slot => { slot with state })

omit [Weighed F] in
theorem stepped_idle (hstay : slot.state ≠ .retiring) (blocked : Bool) (now : ℕ) (shutdown : Bool) :
    Stepped r slot.id slot now shutdown (.error blocked) (r.idle slot blocked now).1 (r.idle slot blocked now).2 := by
  unfold idle
  split
  · rename_i keep hdiscard
    exact .dispatch hstay hdiscard
  · rename_i hdiscard
    dsimp only
    split
    · rename_i hrebalance
      refine .close hstay ?_
      rcases hrebalance with hshrinks | hgrows
      · simp only [shrinks, decide_eq_true_eq] at hshrinks
        omega
      · simp only [grows, decide_eq_true_eq] at hgrows
        omega
    · split
      · rename_i hretire
        refine .rest hstay hdiscard ?_
        rcases hretire with ⟨-, hobsolete⟩ | hquiet
        · exact Or.inl hobsolete
        · exact Or.inr hquiet.2
      · refine .wait hstay hdiscard ?_
        rcases blocked
        · exact Or.inl rfl
        · exact Or.inr rfl

/-- `next` finds the reader's work, takes it back, and steps. -/
theorem stepped_next (hslot : r.slot? id = some slot) (now : ℕ) (shutdown : Bool) :
    Stepped ((r.workFor id).2.updateSlot id Slot.back) id slot now shutdown (r.workFor id).1
      (r.next id now shutdown).1 (r.next id now shutdown).2 := by
  have hslots : (r.workFor id).2.slot? id = some slot := by
    rw [slot?, (work_workFor hslot).slots_eq]
    exact hslot
  obtain rfl := slot?_id hslot
  unfold next
  simp only [hslots]
  split
  · rename_i hleave
    exact .leave hleave
  · rename_i hstay
    have hstay : slot.state ≠ .retiring := fun h => hstay (Or.inr h)
    rcases (r.workFor slot.id).1 with blocked | ⟨time, required⟩
    · exact stepped_idle hstay blocked now shutdown
    · dsimp only
      split
      · rename_i hthreads
        exact .queue hstay hthreads
      · rename_i hthreads
        split
        · exact .close hstay (Nat.pos_of_ne_zero hthreads)
        · exact .decode hstay (Nat.pos_of_ne_zero hthreads)

end Readers

end Kinewright.Media
