import Kinewright.Media.Steps

/-!
# Who owes a required frame

No required frame is lost (H-3): it is there, has failed, is planned by a reader that stays, or waits
for a reader. Whatever happens between two posts takes no reader away from a frame that has no
result, unless the frame leaves the required set with it.
-/

namespace Kinewright.Media

open List

variable {K F E : Type}

/-! ## Slots -/

section Pointwise

variable {α β γ : Type} {R : α → β → Prop} {xs : List α} {ys : List β}

theorem mem_right_of_forall₂ (h : List.Forall₂ R xs ys) {y : β} (hy : y ∈ ys) : ∃ x ∈ xs, R x y := by
  induction h with
  | nil => cases hy
  | cons hxy _ ih =>
    rcases mem_cons.mp hy with rfl | hy
    · exact ⟨_, mem_cons_self, hxy⟩
    · obtain ⟨x, hx, hR⟩ := ih hy
      exact ⟨x, mem_cons_of_mem _ hx, hR⟩

theorem mem_left_of_forall₂ (h : List.Forall₂ R xs ys) {x : α} (hx : x ∈ xs) : ∃ y ∈ ys, R x y := by
  obtain ⟨y, hy, hR⟩ := mem_right_of_forall₂ (Forall₂.flip h) hx
  exact ⟨y, hy, hR⟩

/-- Lists that agree pointwise on an observation have the same list of observations. -/
theorem map_eq_of_forall₂ {f : α → γ} {g : β → γ} (h : List.Forall₂ R xs ys)
    (hR : ∀ x y, R x y → g y = f x) : ys.map g = xs.map f := by
  induction h with
  | nil => rfl
  | cons hxy _ ih => rw [map_cons, map_cons, hR _ _ hxy, ih]

theorem countP_le_of_forall₂ {p : α → Bool} {q : β → Bool} (h : List.Forall₂ R xs ys) (hR : ∀ x y, R x y → q y → p x) :
    ys.countP q ≤ xs.countP p := by
  induction h with
  | nil => exact le_rfl
  | @cons x y xs ys hxy _ ih =>
    rw [countP_cons, countP_cons]
    by_cases hq : q y
    · rw [if_pos hq, if_pos (hR x y hxy hq)]
      omega
    · rw [if_neg hq]
      omega

/-- Two pointwise relations compose. -/
theorem forall₂_comp {S : β → γ → Prop} {zs : List γ} (h : List.Forall₂ R xs ys) (h' : List.Forall₂ S ys zs) :
    List.Forall₂ (fun x z => ∃ y, R x y ∧ S y z) xs zs := by
  induction h generalizing zs with
  | nil =>
    cases h'
    exact .nil
  | cons hxy _ ih =>
    obtain ⟨z, zs, hyz, hrest, rfl⟩ := forall₂_cons_left_iff.mp h'
    exact .cons ⟨_, hxy, hyz⟩ (ih hrest)

end Pointwise

namespace Readers

variable {slots : List (Slot K)}

/-- A change of one slot relates the slots pointwise. -/
theorem forall₂_updateSlots {R : Slot K → Slot K → Prop} (hrefl : ∀ slot, R slot slot) {id : ℕ} {f : Slot K → Slot K}
    (hf : ∀ slot, (slots.find? fun slot => slot.id = id) = some slot → R slot (f slot)) :
    List.Forall₂ R slots (updateSlots slots id f) := by
  induction slots with
  | nil => exact .nil
  | cons slot slots ih =>
    by_cases hid : slot.id = id
    · rw [updateSlots, if_pos hid]
      refine .cons (hf slot ?_) (forall₂_same.mpr fun slot _ => hrefl slot)
      exact find?_cons_of_pos (by simpa using hid)
    · rw [updateSlots, if_neg hid]
      refine .cons (hrefl slot) (ih fun other hother => hf other ?_)
      rw [find?_cons_of_neg (by simpa using hid)]
      exact hother

variable {slot other : Slot K}

/-- With distinct ids, a changed slot is the only one of its reader. -/
theorem mem_updateSlots (hnodup : (slots.map Slot.id).Nodup) {id : ℕ}
    (hslot : (slots.find? fun slot => slot.id = id) = some slot) {f : Slot K → Slot K} :
    other ∈ updateSlots slots id f ↔ other = f slot ∨ other ∈ slots ∧ other.id ≠ id := by
  induction slots with
  | nil => cases hslot
  | cons head slots ih =>
    obtain ⟨hhead, htail⟩ := nodup_cons.mp hnodup
    by_cases hid : head.id = id
    · rw [find?_cons_of_pos (by simpa using hid)] at hslot
      obtain rfl := Option.some.inj hslot
      rw [updateSlots, if_pos hid, mem_cons, mem_cons]
      constructor
      · rintro (rfl | hmem)
        · exact Or.inl rfl
        · exact Or.inr ⟨Or.inr hmem, fun heq => hhead (mem_map.mpr ⟨other, hmem, heq.trans hid.symm⟩)⟩
      · rintro (rfl | ⟨rfl | hmem, hne⟩)
        · exact Or.inl rfl
        · exact absurd hid hne
        · exact Or.inr hmem
    · rw [find?_cons_of_neg (by simpa using hid)] at hslot
      rw [updateSlots, if_neg hid, mem_cons, mem_cons, ih htail hslot]
      constructor
      · rintro (rfl | rfl | ⟨hmem, hne⟩)
        · exact Or.inr ⟨Or.inl rfl, hid⟩
        · exact Or.inl rfl
        · exact Or.inr ⟨Or.inr hmem, hne⟩
      · rintro (rfl | ⟨rfl | hmem, hne⟩)
        · exact Or.inr (Or.inl rfl)
        · exact Or.inl rfl
        · exact Or.inr (Or.inr ⟨hmem, hne⟩)

theorem slot?_eq_some_of_mem {r : Readers K F E} (hnodup : (r.slots.map Slot.id).Nodup)
    (hslot : slot ∈ r.slots) : r.slot? slot.id = some slot := by
  rcases hfind : r.slot? slot.id with _ | other
  · have := find?_eq_none.mp hfind slot hslot
    simp at this
  · have hid : other.id = slot.id := slot?_id hfind
    rw [inj_on_of_nodup_map hnodup (slot?_mem hfind) hslot hid]

/-! ## The invariant -/

variable [DecidableEq K]

/-- A required frame is resolved, planned by a reader that stays, or waiting. -/
def Owed (r : Readers K F E) (frame : K × ℤ) : Prop :=
  r.resolved frame.1 frame.2 ∨ (∃ slot ∈ r.slots, slot.key = frame.1 ∧ slot.state ≠ .retiring ∧
      frame.2 ∈ slot.plan.required) ∨
    ∃ entry ∈ r.pending, entry.1 = frame.1 ∧ frame.2 ∈ entry.2.required

/-- No required frame is lost, H-1's and H-5's bounds hold, and plans and failures are of the current
version. -/
structure Kept (limit : ℕ) (r : Readers K F E) : Prop where
  nodup : (r.slots.map Slot.id).Nodup
  fresh : ∀ slot ∈ r.slots, slot.id < r.nextId
  bound : r.limit = limit
  fits : r.slots.length ≤ limit
  perSource : ∀ key, (r.slots.countP fun slot => slot.key = key) ≤ readersPerSource
  plans : ∀ slot ∈ r.slots, slot.plan.version = r.version
  failures : ∀ frame failure, r.failures.get? frame = some failure → failure.1 = r.version
  owed : ∀ frame ∈ r.required, r.Owed frame

/-! ## Between two posts -/

/-- The slot afterwards is the same reader's. It still plans what the slot planned, unless that has a
result or is not among `required`. -/
structure Carried (r : Readers K F E) (required : Finset (K × ℤ)) (slot slot' : Slot K) : Prop where
  id : slot'.id = slot.id
  key : slot'.key = slot.key
  version : slot'.plan.version = slot.plan.version
  owner : slot.state ≠ .retiring → ∀ time ∈ slot.plan.required, (slot.key, time) ∈ required →
    r.resolved slot.key time ∨ slot'.state ≠ .retiring ∧ time ∈ slot'.plan.required

/-- The state afterwards requires no more, keeps every result of what it requires, and carries every
slot and every waiting region on. -/
structure Carries (r r' : Readers K F E) : Prop where
  version : r'.version = r.version
  limit : r'.limit = r.limit
  nextId : r'.nextId = r.nextId
  required : r'.required ⊆ r.required
  resolved : ∀ frame ∈ r'.required, r.resolved frame.1 frame.2 → r'.resolved frame.1 frame.2
  failures : ∀ frame failure, r'.failures.get? frame = some failure →
    r.failures.get? frame = some failure ∨ failure.1 = r.version
  slots : List.Forall₂ (r.Carried r'.required) r.slots r'.slots
  pending : List.Forall₂ (fun entry entry' => entry'.1 = entry.1 ∧ ∀ time ∈ entry.2.required,
    (entry.1, time) ∈ r'.required → time ∈ entry'.2.required) r.pending r'.pending

variable {limit : ℕ} {r r' : Readers K F E}

omit [DecidableEq K] in
theorem Carried.refl (required : Finset (K × ℤ)) (slot : Slot K) : r.Carried required slot slot :=
  ⟨rfl, rfl, rfl, fun hstay _ htime _ => Or.inr ⟨hstay, htime⟩⟩

omit [DecidableEq K] in
theorem Owed.carry {frame : K × ℤ} (h : r.Owed frame) (hcarries : Carries r r')
    (hframe : frame ∈ r'.required) : r'.Owed frame := by
  rcases h with hdone | ⟨slot, hslot, hkey, hstay, htime⟩ | ⟨entry, hentry, hkey, htime⟩
  · exact Or.inl (hcarries.resolved frame hframe hdone)
  · obtain ⟨slot', hslot', hcarried⟩ := mem_left_of_forall₂ hcarries.slots hslot
    have hframe' : (slot.key, frame.2) ∈ r'.required := by
      rw [hkey]
      exact hframe
    rcases hcarried.owner hstay frame.2 htime hframe' with hdone | ⟨hstay', htime'⟩
    · rw [hkey] at hdone
      exact Or.inl (hcarries.resolved frame hframe hdone)
    · exact Or.inr (Or.inl ⟨slot', hslot', hcarried.key.trans hkey, hstay', htime'⟩)
  · obtain ⟨entry', hentry', hkey', hkeeps⟩ := mem_left_of_forall₂ hcarries.pending hentry
    refine Or.inr (Or.inr ⟨entry', hentry', hkey'.trans hkey, hkeeps frame.2 htime ?_⟩)
    rw [hkey]
    exact hframe

/-- What carries everything on loses no required frame. -/
theorem Kept.carry (h : r.Kept limit) (hcarries : Carries r r') : r'.Kept limit := by
  have hids : r'.slots.map Slot.id = r.slots.map Slot.id := map_eq_of_forall₂ hcarries.slots fun _ _ hslot => hslot.id
  refine ⟨hids ▸ h.nodup, ?_, hcarries.limit.trans h.bound, hcarries.slots.length_eq ▸ h.fits, ?_, ?_, ?_, ?_⟩
  · intro slot' hslot'
    obtain ⟨slot, hslot, hcarried⟩ := mem_right_of_forall₂ hcarries.slots hslot'
    rw [hcarried.id, hcarries.nextId]
    exact h.fresh slot hslot
  · intro key
    refine le_trans (countP_le_of_forall₂ hcarries.slots ?_) (h.perSource key)
    intro slot slot' hcarried hkey
    rwa [hcarried.key] at hkey
  · intro slot' hslot'
    obtain ⟨slot, hslot, hcarried⟩ := mem_right_of_forall₂ hcarries.slots hslot'
    rw [hcarried.version, hcarries.version]
    exact h.plans slot hslot
  · intro frame failure hfailure
    rw [hcarries.version]
    rcases hcarries.failures frame failure hfailure with hold | hnew
    · exact h.failures frame failure hold
    · exact hnew
  · intro frame hframe
    exact (h.owed frame (hcarries.required hframe)).carry hcarries hframe

/-! ## A reader leaves -/

theorem sublist_leave (slot : Slot K) : (r.leave slot).slots.Sublist r.slots := eraseP_sublist

theorem mem_leave (hother : other ∈ r.slots) (hne : other.id ≠ slot.id) : other ∈ (r.leave slot).slots :=
  (mem_eraseP_of_neg (by simpa using hne)).mpr hother

omit [DecidableEq K] in
theorem ne_of_mem_eraseP (hnodup : (slots.map Slot.id).Nodup) {id : ℕ}
    (hother : other ∈ slots.eraseP fun slot => slot.id = id) : other.id ≠ id := by
  induction slots with
  | nil => cases hother
  | cons head slots ih =>
    obtain ⟨hhead, htail⟩ := nodup_cons.mp hnodup
    by_cases hid : head.id = id
    · rw [eraseP_cons_of_pos (by simpa using hid)] at hother
      intro heq
      exact hhead (mem_map.mpr ⟨other, hother, heq.trans hid.symm⟩)
    · rw [eraseP_cons_of_neg (by simpa using hid)] at hother
      rcases mem_cons.mp hother with rfl | hmem
      · exact hid
      · exact ih htail hmem

theorem ne_of_mem_leave (hnodup : (r.slots.map Slot.id).Nodup)
    (hother : other ∈ (r.leave slot).slots) : other.id ≠ slot.id :=
  ne_of_mem_eraseP hnodup hother

/-- A reader leaves once it has retired or nothing of its plan is owed. -/
theorem Kept.leave (h : r.Kept limit) (hslot : slot ∈ r.slots) (hdone : slot.state = .retiring ∨
      ∀ time ∈ slot.plan.required, (slot.key, time) ∈ r.required → r.resolved slot.key time) :
    (r.leave slot).Kept limit := by
  have hsub := sublist_leave (r := r) slot
  refine ⟨(hsub.map Slot.id).nodup h.nodup, fun other hother => h.fresh other (hsub.subset hother),
    h.bound, hsub.length_le.trans h.fits, fun key => hsub.countP_le.trans (h.perSource key),
    fun other hother => h.plans other (hsub.subset hother), h.failures, ?_⟩
  intro frame hframe
  rcases h.owed frame hframe with hresult | ⟨other, hother, hkey, hstay, htime⟩ | hwaiting
  · exact Or.inl hresult
  · by_cases hid : other.id = slot.id
    · -- what the reader planned is there, or it had retired
      obtain rfl := inj_on_of_nodup_map h.nodup hother hslot hid
      have hframe' : (other.key, frame.2) ∈ r.required := by
        rw [hkey]
        exact hframe
      refine Or.inl ?_
      have hresult := hdone.resolve_left hstay frame.2 htime hframe'
      rwa [hkey] at hresult
    · exact Or.inr (Or.inl ⟨other, mem_leave hother hid, hkey, hstay, htime⟩)
  · exact Or.inr (Or.inr hwaiting)

end Readers

end Kinewright.Media
