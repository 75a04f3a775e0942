import Kinewright.Media.Results

/-!
# Refills take times out of the plans

The report of a refill says which frames of its window the decoder kept. A current one clips its
window, a superseded one shortens the continued windows. Both take frames out of the required set,
the reservations and every plan at once, and nothing of these frames has failed.
-/

namespace Kinewright.Media

open List

variable {K F E : Type} [DecidableEq K]

/-- The slot afterwards plans the same frames but some, with the same end of its window. -/
structure Slot.Shrinks (gone : Finset (K × ℤ)) (slot slot' : Slot K) : Prop where
  id : slot'.id = slot.id
  key : slot'.key = slot.key
  state : slot'.state = slot.state
  retained : slot'.retained = slot.retained
  version : slot'.plan.version = slot.plan.version
  required : slot'.plan.required = slot.plan.required.filter fun time => (slot.key, time) ∉ gone
  lookahead : slot'.plan.lookahead = slot.plan.lookahead
  window : slot'.plan.window.map Prod.snd = slot.plan.window.map Prod.snd

namespace Readers

variable {limit : ℕ} {r r' : Readers K F E} {gone : Finset (K × ℤ)}

/-- The state afterwards plans and requires the same frames but some. -/
structure Shrunk (gone : Finset (K × ℤ)) (r r' : Readers K F E) : Prop where
  version : r'.version = r.version
  limit : r'.limit = r.limit
  nextId : r'.nextId = r.nextId
  rings : r'.rings = r.rings
  failures : r'.failures = r.failures
  required : ∀ frame, frame ∈ r'.required ↔ frame ∈ r.required ∧ frame ∉ gone
  continuation : ∀ frame ∈ r'.continuation, frame ∈ r.continuation
  windows : ∀ key, (r'.windows.get? key).map Prod.snd = (r.windows.get? key).map Prod.snd
  slots : List.Forall₂ (Slot.Shrinks gone) r.slots r'.slots
  pending : List.Forall₂ (fun entry entry' => entry'.1 = entry.1 ∧ entry'.2.lookahead = entry.2.lookahead ∧
    entry'.2.required = entry.2.required.filter fun time => (entry.1, time) ∉ gone) r.pending
    r'.pending
  reserved : ∀ frame, r'.reserved.contains frame → r.reserved.contains frame ∧ frame ∉ gone

namespace Shrunk

section

variable (h : Shrunk gone r r')

include h

theorem resolved (key : K) (time : ℤ) : r'.resolved key time = r.resolved key time := by
  rw [Readers.resolved, Readers.resolved, h.rings, h.failures]

theorem held (key : K) : r'.windows.contains key = r.windows.contains key := by
  have hends := congrArg Option.isSome (h.windows key)
  rwa [Option.isSome_map, Option.isSome_map] at hends

/-- A window that is held afterwards was held before, with the same end. -/
theorem window {key : K} {window : ℤ × ℤ} (hwindow : r.windows.get? key = some window) :
    ∃ start, r'.windows.get? key = some (start, window.2) := by
  have hends := h.windows key
  rw [hwindow] at hends
  obtain ⟨⟨start, t⟩, hnew, rfl⟩ := Option.map_eq_some_iff.mp hends
  exact ⟨start, hnew⟩

theorem owners_le (key : K) : r'.owners key ≤ r.owners key := by
  refine Nat.add_le_add ?_ ?_
  · refine countP_le_of_forall₂ h.slots fun slot slot' hslot hcounted => ?_
    simp only [decide_eq_true_eq, hslot.key, hslot.required] at hcounted ⊢
    refine ⟨hcounted.1, fun hnil => hcounted.2 ?_⟩
    rw [hnil]
    rfl
  · refine countP_le_of_forall₂ h.pending fun entry entry' hentry hcounted => ?_
    simp only [decide_eq_true_eq, hentry.1] at hcounted ⊢
    exact hcounted

/-- A plan that loses no end of a window stays one. -/
theorem plan {slot slot' : Slot K} (hslot : slot.Shrinks gone slot') (hplan : r.PlanFits slot.key slot.plan)
    (hends : ∀ window ∈ slot.plan.window, (slot.key, window.2) ∉ gone) :
    r'.PlanFits slot'.key slot'.plan := by
  have hwindow : ∀ window ∈ slot'.plan.window, ∃ old ∈ slot.plan.window, old.2 = window.2 := by
    intro window hwindow
    have heq := hslot.window
    rw [Option.mem_def.mp hwindow, Option.map_some, eq_comm, Option.map_eq_some_iff] at heq
    exact heq
  rw [hslot.key]
  refine ⟨?_, ?_, ?_, ?_⟩
  · rw [hslot.required]
    intro time htime
    obtain ⟨hold, hkept⟩ := mem_filter.mp htime
    exact (h.required _).mpr ⟨hplan.planned time hold, of_decide_eq_true hkept⟩
  · rw [hslot.lookahead]
    intro time htime hrequired
    exact hplan.ahead time htime ((h.required _).mp hrequired).1
  · intro window hnew
    obtain ⟨old, hold, heq⟩ := hwindow window hnew
    obtain ⟨hhead, start, hheld⟩ := hplan.window old hold
    obtain ⟨start', hheld'⟩ := h.window hheld
    refine ⟨?_, start', by rw [hheld', heq]⟩
    -- the head of the plan is the end of its window, which stays
    rw [hslot.required]
    obtain ⟨rest, hrest⟩ := head?_eq_some_iff.mp hhead
    rw [hrest, filter_cons_of_pos (by simpa using hends old hold), heq]
    rfl
  · intro window hnew time htime hne hfailed
    obtain ⟨old, hold, heq⟩ := hwindow window hnew
    rw [h.failures] at hfailed
    rw [hslot.required] at htime
    rw [h.resolved, ← heq]
    exact hplan.failed old hold time (mem_of_mem_filter htime) (heq ▸ hne) hfailed

theorem flight {slot slot' : Slot K} (hslot : slot.Shrinks gone slot') (hflight : r.FlightFits slot)
    (hflown : ∀ time ∈ slot.plan.required, slot.state = .decoding time slot.plan.version →
      (slot.key, time) ∉ gone) : r'.FlightFits slot' := by
  refine ⟨?_, ?_, ?_⟩
  · rw [hslot.state, h.version]
    exact hflight.version
  · rw [hslot.state, hslot.version, hslot.required, hslot.lookahead]
    intro time hstate
    refine (hflight.planned time hstate).imp_left fun htime => ?_
    exact mem_filter.mpr ⟨htime, by simpa using hflown time htime hstate⟩
  · rw [hslot.state, hslot.version, hslot.key]
    intro time hstate window hwindow
    have heq := hslot.window
    rw [Option.mem_def.mp hwindow, Option.map_some, eq_comm, Option.map_eq_some_iff] at heq
    obtain ⟨old, hold, heq⟩ := heq
    rw [h.resolved, h.resolved, ← heq]
    exact hflight.window time hstate old hold

end

end Shrunk

/-- A shrunk state carries everything that it still requires on. -/
theorem Shrunk.carries (h : Shrunk gone r r') : Carries r r' where
  version := h.version
  limit := h.limit
  nextId := h.nextId
  required := fun frame hframe => ((h.required frame).mp hframe).1
  resolved := by
    intro frame _ hdone
    rwa [h.resolved]
  failures := by
    rw [h.failures]
    exact fun frame failure => Or.inl
  slots := by
    refine h.slots.imp fun slot slot' hslot => ⟨hslot.id, hslot.key, hslot.version, ?_⟩
    intro hstay time htime hrequired
    rw [hslot.state, hslot.required]
    have hkept := ((h.required _).mp hrequired).2
    exact Or.inr ⟨hstay, mem_filter.mpr ⟨htime, by simpa using hkept⟩⟩
  pending := by
    refine h.pending.imp fun entry entry' hentry => ⟨hentry.1, ?_⟩
    intro time htime hrequired
    have hkept := ((h.required _).mp hrequired).2
    rw [hentry.2.2]
    exact mem_filter.mpr ⟨htime, by simpa using hkept⟩

theorem Consistent.shrink (h : r.Consistent) (hshrunk : Shrunk gone r r')
    (hfresh : ∀ frame ∈ gone, ¬ r.failures.contains frame)
    (hflights : ∀ slot ∈ r.slots, ∀ time ∈ slot.plan.required,
      slot.state = .decoding time slot.plan.version → (slot.key, time) ∉ gone)
    (hends : ∀ slot ∈ r.slots, ∀ window ∈ slot.plan.window, (slot.key, window.2) ∉ gone) :
    r'.Consistent := by
  refine ⟨?_, ?_, ?_, ?_, ?_, ?_, ?_⟩
  · intro slot' hslot'
    obtain ⟨slot, hslot, hpair⟩ := mem_right_of_forall₂ hshrunk.slots hslot'
    exact hshrunk.plan hpair (h.plans slot hslot) (hends slot hslot)
  · intro slot' hslot'
    obtain ⟨slot, hslot, hpair⟩ := mem_right_of_forall₂ hshrunk.slots hslot'
    exact hshrunk.flight hpair (h.flights slot hslot) (hflights slot hslot)
  · intro slot' hslot' other' hother' hkey time hflying hflying'
    obtain ⟨slot, hslot, hpair⟩ := mem_right_of_forall₂ hshrunk.slots hslot'
    obtain ⟨other, hother, hpair'⟩ := mem_right_of_forall₂ hshrunk.slots hother'
    rw [hpair.key, hpair'.key] at hkey
    rw [hpair.state] at hflying
    rw [hpair'.state] at hflying'
    rw [hpair.id, hpair'.id]
    exact h.apart slot hslot other hother hkey time hflying hflying'
  · intro entry' hentry'
    obtain ⟨entry, hentry, hkey, hlookahead, hrequired⟩ := mem_right_of_forall₂ hshrunk.pending hentry'
    have hregion := h.pending entry hentry
    refine ⟨?_, ?_, ?_⟩
    · rw [hkey, hrequired]
      intro time htime
      obtain ⟨hold, hkept⟩ := mem_filter.mp htime
      exact (hshrunk.required _).mpr ⟨hregion.planned time hold, of_decide_eq_true hkept⟩
    · rw [hkey, hlookahead]
      intro time htime hrequired'
      exact hregion.ahead time htime ((hshrunk.required _).mp hrequired').1
    · rw [hkey, hrequired, hshrunk.held, hshrunk.failures]
      intro hheld time htime
      exact hregion.failed hheld time (mem_of_mem_filter htime)
  · rw [hshrunk.failures]
    intro frame hfailed
    refine (hshrunk.required frame).mpr ⟨h.failures frame hfailed, fun hgone => ?_⟩
    exact hfresh frame hgone hfailed
  · intro key hheld
    rw [hshrunk.held] at hheld
    exact (hshrunk.owners_le key).trans (h.sole key hheld)
  · intro frame hframe
    obtain ⟨window, hwindow, hlt⟩ := h.continued frame (hshrunk.continuation frame hframe)
    obtain ⟨start, hnew⟩ := hshrunk.window hwindow
    exact ⟨_, hnew, hlt⟩

/-- Taking unfailed frames out of the plans, none of which is a current flight or the end of a
window. -/
theorem Sound.shrink (h : r.Sound) (hshrunk : Shrunk gone r r') (hfresh : ∀ frame ∈ gone, ¬ r.failures.contains frame)
    (hflights : ∀ slot ∈ r.slots, ∀ time ∈ slot.plan.required,
      slot.state = .decoding time slot.plan.version → (slot.key, time) ∉ gone)
    (hends : ∀ slot ∈ r.slots, ∀ window ∈ slot.plan.window, (slot.key, window.2) ∉ gone)
    (hstale : ∀ slot ∈ r.slots, ∀ time version, slot.state = .decoding time version →
      version ≠ slot.plan.version → ∀ kept ∈ slot.plan.required,
      (slot.key, kept) ∈ r'.continuation → (slot.key, kept) ∉ gone) : r'.Sound := by
  refine ⟨h.base.shrink hshrunk hfresh hflights hends, ?_, ?_⟩
  · intro frame hframe
    obtain ⟨hold, hkept⟩ := hshrunk.reserved frame hframe
    obtain ⟨hrequired, hfree⟩ := h.reserves frame hold
    refine ⟨(hshrunk.required frame).mpr ⟨hrequired, hkept⟩, ?_⟩
    intro slot' hslot' hkey
    obtain ⟨slot, hslot, hpair⟩ := mem_right_of_forall₂ hshrunk.slots hslot'
    rw [hpair.state]
    exact hfree slot hslot (hpair.key ▸ hkey)
  · intro slot' hslot'
    obtain ⟨slot, hslot, hpair⟩ := mem_right_of_forall₂ hshrunk.slots hslot'
    intro time version hstate hne kept hkept hcontinued
    rw [hpair.state] at hstate
    rw [hpair.version] at hne
    rw [hpair.retained] at hkept
    rw [hpair.key] at hcontinued ⊢
    rw [hpair.required, hshrunk.failures]
    obtain ⟨hplanned, hfresh'⟩ := h.stale slot hslot time version hstate hne kept hkept
      (hshrunk.continuation _ hcontinued)
    refine ⟨mem_filter.mpr ⟨hplanned, ?_⟩, hfresh'⟩
    simpa using hstale slot hslot time version hstate hne kept hplanned hcontinued

/-! ## A current refill -/

omit [DecidableEq K] in
theorem updateSlots_eq_map {slots : List (Slot K)} (hnodup : (slots.map Slot.id).Nodup) (id : ℕ) (f : Slot K → Slot K) :
    updateSlots slots id f = slots.map fun slot => if slot.id = id then f slot else slot := by
  induction slots with
  | nil => rfl
  | cons head slots ih =>
    obtain ⟨hhead, htail⟩ := nodup_cons.mp hnodup
    by_cases hid : head.id = id
    · rw [updateSlots, if_pos hid, map_cons, if_pos hid]
      refine congrArg _ (Eq.symm ?_)
      rw [map_congr_left fun slot hslot => if_neg ?_, map_id']
      exact fun heq => hhead (mem_map.mpr ⟨slot, hslot, heq.trans hid.symm⟩)
    · rw [updateSlots, if_neg hid, map_cons, if_neg hid, ih htail]

/-- The frames of a plan below a time. -/
def below (slot : Slot K) (kept : ℤ) : Finset (K × ℤ) :=
  ((slot.plan.required.filter fun time => time < kept).toFinset).image fun time => (slot.key, time)

variable {slot : Slot K}

theorem mem_below {kept : ℤ} {frame : K × ℤ} : frame ∈ below slot kept ↔
      frame.1 = slot.key ∧ frame.2 ∈ slot.plan.required ∧ frame.2 < kept := by
  rw [below, Finset.mem_image]
  constructor
  · rintro ⟨time, htime, rfl⟩
    rw [mem_toFinset, mem_filter, decide_eq_true_eq] at htime
    exact ⟨rfl, htime⟩
  · rintro ⟨hkey, htime, hlt⟩
    refine ⟨frame.2, ?_, Prod.ext hkey.symm rfl⟩
    rw [mem_toFinset, mem_filter, decide_eq_true_eq]
    exact ⟨htime, hlt⟩

/-- A refill that clips its window takes frames of its own plan only. -/
theorem shrunk_clip (h : r.Consistent) (hkept : r.Kept limit) (hslot : slot ∈ r.slots)
    (hheld : r.windows.contains slot.key) {t : ℤ} (ht : t ∈ slot.plan.required) (kept : ℤ) :
    Shrunk (below slot kept) r (r.clip slot t kept) := by
  have hmem (frame : K × ℤ) : frame ∈ below slot kept ↔ frame.1 = slot.key ∧
      frame.2 ∈ (slot.plan.required.filter fun time => time < kept).toFinset := by
    rw [mem_below, mem_toFinset, mem_filter, decide_eq_true_eq]
  have hother : ∀ other ∈ r.slots, other.id ≠ slot.id →
      ∀ time ∈ other.plan.required, (other.key, time) ∉ below slot kept := by
    intro other hmem' hne time htime hgone
    obtain ⟨hkey, -, -⟩ := mem_below.mp hgone
    have heq := h.sole_slot hslot hmem' hheld hkey.symm ht htime
    exact hne (congrArg Slot.id heq.symm)
  refine ⟨rfl, rfl, rfl, rfl, rfl, ?_, fun _ => id, ?_, ?_, ?_, ?_⟩
  · intro frame
    show frame ∈ r.required.filter _ ↔ _
    rw [Finset.mem_filter, hmem]
  · intro key
    show ((r.windows.get? key).map _).map Prod.snd = _
    rw [Option.map_map]
    refine Option.map_congr fun window _ => ?_
    dsimp only [Function.comp]
    split <;> rfl
  · show List.Forall₂ _ r.slots (updateSlots r.slots slot.id _)
    rw [updateSlots_eq_map hkept.nodup, forall₂_map_right_iff]
    refine forall₂_same.mpr fun other hmem' => ?_
    by_cases hid : other.id = slot.id
    · obtain rfl := inj_on_of_nodup_map hkept.nodup hmem' hslot hid
      rw [if_pos rfl]
      refine ⟨rfl, rfl, rfl, rfl, rfl, ?_, rfl, ?_⟩
      · refine filter_congr fun time htime => ?_
        rw [decide_eq_decide, mem_below]
        simp [htime]
      · show (other.plan.window.map _).map Prod.snd = _
        rw [Option.map_map]
        rfl
    · rw [if_neg hid]
      refine ⟨rfl, rfl, rfl, rfl, rfl, ?_, rfl, rfl⟩
      refine (filter_eq_self.mpr fun time htime => ?_).symm
      simpa using hother other hmem' hid time htime
  · refine forall₂_same.mpr fun entry hentry => ⟨rfl, rfl, ?_⟩
    refine (filter_eq_self.mpr fun time _ => ?_).symm
    have hkey := h.not_pending hslot hheld ht hentry
    simp [mem_below, hkey]
  · intro frame hframe
    obtain ⟨bytes, hbytes⟩ := KeyedMap.contains_iff.mp hframe
    obtain ⟨hold, hkept⟩ := KeyedMap.get?_filter_eq_some.mp hbytes
    refine ⟨KeyedMap.contains_iff.mpr ⟨bytes, hold⟩, fun hgone => ?_⟩
    have htaken : ¬ (frame.1 = slot.key ∧
        frame.2 ∈ (slot.plan.required.filter fun time => time < kept).toFinset) := by
      simpa only [Bool.not_eq_true', decide_eq_false_iff_not] using hkept
    exact htaken ((hmem frame).mp hgone)

/-- Clipping a window loses no required frame: what leaves its plan leaves the required set. -/
theorem Kept.clip (h : r.Kept limit) (hslot : ∀ found ∈ r.slot? slot.id, found.key = slot.key ∧ found.plan = slot.plan)
    (t kept : ℤ) : (r.clip slot t kept).Kept limit := by
  refine h.carry ⟨rfl, rfl, rfl, Finset.filter_subset _ _, fun _ _ => id, fun _ _ => Or.inl, ?_,
    forall₂_same.mpr fun entry _ => ⟨rfl, fun _ htime _ => htime⟩⟩
  refine forall₂_updateSlots (fun other => .refl _ other) fun found hfound => ?_
  obtain ⟨hkey, hplan⟩ := hslot found hfound
  refine ⟨rfl, rfl, rfl, fun hstay time htime hrequired => Or.inr ⟨hstay, ?_⟩⟩
  refine mem_filter.mpr ⟨htime, decide_eq_true ?_⟩
  -- a time below `kept` would not be required any more
  by_contra hlt
  refine (Finset.mem_filter.mp hrequired).2 ⟨hkey, ?_⟩
  rw [mem_toFinset, mem_filter, decide_eq_true_eq]
  exact ⟨hplan ▸ htime, not_le.mp hlt⟩

/-- A reader's refill of t, under the current plan, clips its window to what its decoder kept. -/
theorem Sound.clip (h : r.Sound) (hkept' : r.Kept limit) (hslot : slot ∈ r.slots) {window : ℤ × ℤ}
    (hwindow : window ∈ slot.plan.window)
    (hstate : slot.state = .decoding window.2 slot.plan.version) {kept : ℤ}
    (hkept : kept ≤ window.2) : (r.clip slot window.2 kept).Sound := by
  have hplan := h.base.plans slot hslot
  have hheld := hplan.held hwindow
  have ht := hplan.end_mem hwindow
  refine h.shrink (shrunk_clip h.base hkept' hslot hheld ht kept) ?_ ?_ ?_ ?_
  · intro frame hgone hfailed
    obtain ⟨hkey, htime, hlt⟩ := mem_below.mp hgone
    -- the refill's t has no result yet, so nothing else of the window has failed
    have hframe : frame = (slot.key, frame.2) := Prod.ext hkey rfl
    rw [hframe] at hfailed
    have hdone := hplan.failed window hwindow frame.2 htime (by omega) hfailed
    rcases (h.base.flights slot hslot).window _ hstate window hwindow with ⟨-, hopen⟩ | ⟨hne, -⟩
    · exact hopen hdone
    · exact hne rfl
  · intro other hother time htime hcurrent hgone
    obtain ⟨hkey, -, hlt⟩ := mem_below.mp hgone
    obtain rfl := h.base.sole_slot hslot hother hheld hkey.symm ht htime
    obtain ⟨heq, -⟩ := ReaderState.decoding.inj (hstate.symm.trans hcurrent)
    omega
  · intro other hother window' hwindow' hgone
    obtain ⟨hkey, -, hlt⟩ := mem_below.mp hgone
    have ht' := (h.base.plans other hother).end_mem hwindow'
    obtain rfl := h.base.sole_slot hslot hother hheld hkey.symm ht ht'
    obtain rfl := Option.some.inj (hwindow.symm.trans hwindow')
    omega
  · intro other hother time version hflight hstale planned hplanned _ hgone
    obtain ⟨hkey, -, -⟩ := mem_below.mp hgone
    obtain rfl := h.base.sole_slot hslot hother hheld hkey.symm ht hplanned
    exact hstale (ReaderState.decoding.inj (hflight.symm.trans hstate)).2

/-! ## A superseded refill -/

/-- The unavailable frames of a source. -/
def unavailableFrames (r : Readers K F E) (key : K) (absent : Finset ℤ) : Finset (K × ℤ) :=
  (absent.filter fun time => r.unavailable key time).image fun time => (key, time)

theorem mem_unavailableFrames {key : K} {absent : Finset ℤ} {frame : K × ℤ} : frame ∈ r.unavailableFrames key absent ↔
      frame.1 = key ∧ frame.2 ∈ absent.filter fun time => r.unavailable key time := by
  rw [unavailableFrames, Finset.mem_image]
  constructor
  · rintro ⟨time, htime, rfl⟩
    exact ⟨rfl, htime⟩
  · rintro ⟨rfl, htime⟩
    exact ⟨frame.2, htime, rfl⟩

theorem shrunk_shortenUnavailable (key : K) (absent : Finset ℤ) :
    Shrunk (r.unavailableFrames key absent) r (r.shortenUnavailable key absent) := by
  refine ⟨rfl, rfl, rfl, rfl, rfl, ?_, ?_, fun _ => rfl, ?_, ?_, ?_⟩
  · intro frame
    show frame ∈ r.required.filter _ ↔ _
    rw [Finset.mem_filter, mem_unavailableFrames]
  · intro frame hframe
    exact (Finset.mem_filter.mp hframe).1
  · show List.Forall₂ _ r.slots (r.slots.map _)
    rw [forall₂_map_right_iff]
    refine forall₂_same.mpr fun slot _ => ?_
    by_cases hkey : slot.key = key
    · rw [if_pos hkey]
      refine ⟨rfl, rfl, rfl, rfl, rfl, filter_congr fun time _ => ?_, rfl, rfl⟩
      rw [decide_eq_decide, mem_unavailableFrames, and_iff_right hkey]
    · rw [if_neg hkey]
      refine ⟨rfl, rfl, rfl, rfl, rfl, (filter_eq_self.mpr fun time _ => ?_).symm, rfl, rfl⟩
      simp [mem_unavailableFrames, hkey]
  · show List.Forall₂ _ r.pending (r.pending.map _)
    rw [forall₂_map_right_iff]
    refine forall₂_same.mpr fun entry _ => ?_
    by_cases hkey : entry.1 = key
    · rw [if_pos hkey]
      refine ⟨rfl, rfl, filter_congr fun time _ => ?_⟩
      rw [decide_eq_decide, mem_unavailableFrames, and_iff_right hkey]
    · rw [if_neg hkey]
      refine ⟨rfl, rfl, (filter_eq_self.mpr fun time _ => ?_).symm⟩
      simp [mem_unavailableFrames, hkey]
  · intro frame hframe
    obtain ⟨bytes, hbytes⟩ := KeyedMap.contains_iff.mp hframe
    obtain ⟨hold, hkept⟩ := KeyedMap.get?_filter_eq_some.mp hbytes
    refine ⟨KeyedMap.contains_iff.mpr ⟨bytes, hold⟩, fun hgone => ?_⟩
    simp [mem_unavailableFrames.mp hgone] at hkept

/-- A superseded refill takes continued frames that nobody can give and that have not failed. -/
theorem Sound.shortenUnavailable (h : r.Sound) {key : K} {absent : Finset ℤ}
    (hfresh : ∀ time ∈ absent, (key, time) ∈ r.continuation →
      ¬ r.failures.contains (key, time)) : (r.shortenUnavailable key absent).Sound := by
  have hgone : ∀ frame ∈ r.unavailableFrames key absent, frame.1 = key ∧ frame.2 ∈ absent ∧
      frame ∈ r.continuation ∧ ∀ slot ∈ r.slots, slot.key = key →
        slot.state.flying ≠ some frame.2 := by
    intro frame hframe
    obtain ⟨hkey, habsent⟩ := mem_unavailableFrames.mp hframe
    obtain ⟨hmem, hunavailable⟩ := Finset.mem_filter.mp habsent
    simp only [unavailable, decide_eq_true_eq] at hunavailable
    refine ⟨hkey, hmem, ?_, ?_⟩
    · rw [show frame = (key, frame.2) from Prod.ext hkey rfl]
      exact hunavailable.1
    · intro slot hslot hkey' hflying
      refine hunavailable.2.2 (any_eq_true.mpr ⟨slot, hslot, ?_⟩)
      simp [hkey', hflying]
  refine h.shrink (shrunk_shortenUnavailable key absent) ?_ ?_ ?_ ?_
  · intro frame hframe
    obtain ⟨hkey, hmem, hcontinued, -⟩ := hgone frame hframe
    have heq : frame = (key, frame.2) := Prod.ext hkey rfl
    rw [heq] at hcontinued ⊢
    exact hfresh frame.2 hmem hcontinued
  · intro slot hslot time _ hstate hframe
    obtain ⟨hkey, -, -, hfree⟩ := hgone _ hframe
    exact hfree slot hslot hkey (flying_iff.mpr ⟨_, hstate⟩)
  · intro slot hslot window hwindow hframe
    -- continued times are below the end of the held window
    obtain ⟨-, -, hcontinued, -⟩ := hgone _ hframe
    obtain ⟨held, hheld, hlt⟩ := h.base.continued _ hcontinued
    obtain ⟨start, hheld'⟩ := ((h.base.plans slot hslot).window window hwindow).2
    obtain rfl := Option.some.inj (hheld.symm.trans hheld')
    exact lt_irrefl _ hlt
  · intro slot _ _ _ _ _ kept _ hcontinued hframe
    obtain ⟨hkey, habsent⟩ := mem_unavailableFrames.mp hframe
    have hkept := (Finset.mem_filter.mp hcontinued).2
    exact hkept ⟨hkey, habsent⟩

/-! ## The report -/

/-- The report of a refill in flight: if its plan is current, it is the plan's window's. -/
def Refills (r : Readers K F E) (id : ℕ) (t : ℤ) : Prop :=
  ∀ slot ∈ r.slot? id, slot.state = .decoding t slot.plan.version → ∃ start, slot.plan.window = some (start, t)

/-- The report of a refill loses no required frame. -/
theorem Kept.refilledExact (h : r.Kept limit) (id : ℕ) (t : ℤ) (version : ℕ) (keptFrom : Option ℤ) (kept : Finset ℤ) :
    (r.refilledExact id t version keptFrom kept).Kept limit := by
  unfold Readers.refilledExact
  split
  · exact h
  · rename_i slot hslot
    obtain rfl := slot?_id hslot
    have hkept : (r.updateSlot slot.id fun slot => slot.keepOnly kept).Kept limit :=
      h.lighten (lightens_easeSlot slot.id (fun _ => rfl) (fun _ => Or.inl rfl)
        fun _ => Finset.inter_subset_left)
    split
    · exact h
    · split
      · exact hkept.lighten (lightens_unkept _ _)
      · split
        · refine hkept.clip ?_ _ _
          intro found hfound
          rw [slot?_updateSlot (f := fun slot => slot.keepOnly kept) (fun _ => rfl), if_pos rfl, hslot] at hfound
          obtain rfl := Option.some.inj hfound
          exact ⟨rfl, rfl⟩
        · exact (hkept.carry (shrunk_shortenUnavailable _ _).carries).lighten (lightens_unkept _ _)

theorem Sound.refilledExact (h : r.Sound) (hkept' : r.Kept limit) {id : ℕ} {t : ℤ}
    (hrefills : r.Refills id t) (version : ℕ) (keptFrom : Option ℤ) (kept : Finset ℤ) :
    (r.refilledExact id t version keptFrom kept).Sound := by
  unfold Readers.refilledExact
  split
  · exact h
  · rename_i slot hslot
    obtain rfl := slot?_id hslot
    have hmem := slot?_mem hslot
    have hlightens : Lightens r (r.updateSlot slot.id fun slot => slot.keepOnly kept) :=
      lightens_easeSlot slot.id (fun _ => rfl) (fun _ => Or.inl rfl)
        fun _ => Finset.inter_subset_left
    have hkept := h.lighten hlightens
    have hmem' : slot.keepOnly kept ∈ (r.updateSlot slot.id fun slot => slot.keepOnly kept).slots :=
      (mem_updateSlots hkept'.nodup hslot).mpr (Or.inl rfl)
    split
    · exact h
    · rename_i hflown
      split
      · exact hkept.lighten (lightens_unkept _ _)
      · rename_i hstay
        have hstate : slot.state = .decoding t version := by
          by_contra hne
          exact hflown ⟨hstay, hne⟩
        split
        · rename_i hcurrent
          rw [← hcurrent] at hstate
          obtain ⟨start, hwindow⟩ := hrefills slot hslot hstate
          have hwindow' : (start, t) ∈ (slot.keepOnly kept).plan.window := hwindow
          exact hkept.clip (hkept'.lighten hlightens) hmem' hwindow' hstate (min_le_right _ _)
        · rename_i hstale
          refine (hkept.shortenUnavailable ?_).lighten (lightens_unkept _ _)
          intro time htime hcontinued
          have hretained := (Finset.mem_sdiff.mp htime).1
          exact (h.stale slot hmem t version hstate (Ne.symm hstale) time hretained hcontinued).2

end Readers

end Kinewright.Media
