import Kinewright.Media.Owed

/-!
# Sound plans

What holds of the readers' plans in every state between two posts: the plans have what the job
requires and wants, reserved frames are required and nobody decodes them, no two readers decode one
frame, and only required frames have failed.

A source with a held window has one region in its plan, so its continued times and its refill belong
to one reader. A refill that clips its window, and one that a newer post superseded and that
shortens the continuation, then take only times away that have not failed.
-/

namespace Kinewright.Media

variable {K F E : Type}

/-! ## Slots -/

/-- What the plan invariants read of a slot besides its flight and its kept times. -/
def Slot.profile (slot : Slot K) : ℕ × K × Plan := (slot.id, slot.key, slot.plan)

/-- The slot afterwards has the same plan, keeps no more and has no new flight. -/
structure Slot.Eases (slot slot' : Slot K) : Prop where
  profile : slot'.profile = slot.profile
  flight : slot'.state = slot.state ∨ slot'.state.flying = none
  retained : slot'.retained ⊆ slot.retained

theorem Slot.Eases.refl (slot : Slot K) : slot.Eases slot := ⟨rfl, Or.inl rfl, subset_rfl⟩

theorem Slot.Eases.trans {one two three : Slot K} (h : one.Eases two) (h' : two.Eases three) :
    one.Eases three where
  profile := h'.profile.trans h.profile
  flight := by
    rcases h'.flight with heq | hnone
    · rw [heq]
      exact h.flight
    · exact Or.inr hnone
  retained := h'.retained.trans h.retained

variable {slot slot' : Slot K}

section

variable (h : slot.Eases slot')

include h

theorem Slot.Eases.id : slot'.id = slot.id := congrArg Prod.fst h.profile

theorem Slot.Eases.key : slot'.key = slot.key := congrArg (fun profile => profile.2.1) h.profile

theorem Slot.Eases.plan : slot'.plan = slot.plan := congrArg (fun profile => profile.2.2) h.profile

/-- A flight afterwards was one before. -/
theorem Slot.Eases.decoding {time : ℤ} {version : ℕ}
    (hstate : slot'.state = .decoding time version) : slot.state = .decoding time version := by
  rcases h.flight with heq | hnone
  · rw [← heq, hstate]
  · rw [hstate] at hnone
    cases hnone

theorem Slot.Eases.flying {time : ℤ} (hflying : slot'.state.flying = some time) : slot.state.flying = some time := by
  rcases h.flight with heq | hnone
  · rw [← heq, hflying]
  · rw [hflying] at hnone
    cases hnone

end

theorem flying_iff {state : ReaderState} {time : ℤ} :
    state.flying = some time ↔ ∃ version, state = .decoding time version := by
  cases state with
  | decoding other version =>
    simp only [ReaderState.flying, Option.some.injEq, ReaderState.decoding.injEq]
    exact ⟨fun h => ⟨version, h, rfl⟩, fun ⟨_, h, _⟩ => h⟩
  | _ => simp [ReaderState.flying]

namespace Readers

/-! ## The invariant -/

variable [DecidableEq K]

/-- How many readers and waiting regions have required times of the source planned. -/
def owners (r : Readers K F E) (key : K) : ℕ :=
  (r.slots.countP fun slot => slot.key = key ∧ slot.plan.required ≠ []) + r.pending.countP fun entry => entry.1 = key

/-- A plan that serves the job. A backward window starts with its end t, and none of its other
times has failed before t has a result. -/
structure PlanFits (r : Readers K F E) (key : K) (plan : Plan) : Prop where
  planned : ∀ time ∈ plan.required, (key, time) ∈ r.required
  ahead : ∀ time ∈ plan.lookahead, (key, time) ∉ r.required
  window : ∀ window ∈ plan.window, plan.required.head? = some window.2 ∧
    ∃ start, r.windows.get? key = some (start, window.2)
  failed : ∀ window ∈ plan.window, ∀ time ∈ plan.required, time ≠ window.2 →
    r.failures.contains (key, time) → r.resolved key window.2

/-- A flight of the current version is of a planned time: the end of a backward window while it has
no result, or another time once it has one. -/
structure FlightFits (r : Readers K F E) (slot : Slot K) : Prop where
  version : ∀ time version, slot.state = .decoding time version → version ≤ r.version
  planned : ∀ time, slot.state = .decoding time slot.plan.version →
    time ∈ slot.plan.required ∨ time ∈ slot.plan.lookahead
  window : ∀ time, slot.state = .decoding time slot.plan.version → ∀ window ∈ slot.plan.window,
    (time = window.2 ∧ ¬ r.resolved slot.key time) ∨ (time ≠ window.2 ∧ r.resolved slot.key window.2)

/-- A waiting region of the current version. -/
structure RegionFits (r : Readers K F E) (entry : K × Region) : Prop where
  planned : ∀ time ∈ entry.2.required, (entry.1, time) ∈ r.required
  ahead : ∀ time ∈ entry.2.lookahead, (entry.1, time) ∉ r.required
  failed : r.windows.contains entry.1 → ∀ time ∈ entry.2.required, ¬ r.failures.contains (entry.1, time)

/-- The readers, their plans and flights, and the failures. -/
structure Consistent (r : Readers K F E) : Prop where
  plans : ∀ slot ∈ r.slots, r.PlanFits slot.key slot.plan
  flights : ∀ slot ∈ r.slots, r.FlightFits slot
  apart : ∀ slot ∈ r.slots, ∀ other ∈ r.slots, slot.key = other.key → ∀ time,
    slot.state.flying = some time → other.state.flying = some time → slot.id = other.id
  pending : ∀ entry ∈ r.pending, r.RegionFits entry
  failures : ∀ frame, r.failures.contains frame → frame ∈ r.required
  sole : ∀ key, r.windows.contains key → r.owners key ≤ 1
  continued : ∀ frame ∈ r.continuation, ∃ window, r.windows.get? frame.1 = some window ∧ frame.2 < window.2

/-- Reserved frames are required, and nobody decodes them. -/
def Reserves (r : Readers K F E) : Prop :=
  ∀ frame, r.reserved.contains frame → frame ∈ r.required ∧
    ∀ slot ∈ r.slots, slot.key = frame.1 → slot.state.flying ≠ some frame.2

/-- A reader whose flight a newer post superseded keeps continued times of its own plan only, and
these have not failed. -/
def StaleFits (r : Readers K F E) (slot : Slot K) : Prop :=
  ∀ time version, slot.state = .decoding time version → version ≠ slot.plan.version →
    ∀ kept ∈ slot.retained, (slot.key, kept) ∈ r.continuation →
      kept ∈ slot.plan.required ∧ ¬ r.failures.contains (slot.key, kept)

/-- No frame has two readers, and no failure is of a frame that is not required. -/
structure Sound (r : Readers K F E) : Prop where
  base : r.Consistent
  reserves : r.Reserves
  stale : ∀ slot ∈ r.slots, r.StaleFits slot

/-! ## Changes outside the plans -/

/-- The state afterwards has the same plan: what is required and continued, which regions wait,
which windows are held, what failed, and which required frames there are. -/
structure SamePlan (r r' : Readers K F E) : Prop where
  version : r'.version = r.version
  limit : r'.limit = r.limit
  nextId : r'.nextId = r.nextId
  required : r'.required = r.required
  continuation : r'.continuation = r.continuation
  pending : r'.pending = r.pending
  windows : r'.windows = r.windows
  failures : r'.failures = r.failures
  rings : ∀ frame ∈ r.required, r'.rings.contains frame = r.rings.contains frame

variable {limit : ℕ} {r r' : Readers K F E}

omit [DecidableEq K] in
theorem SamePlan.refl (r : Readers K F E) : SamePlan r r := ⟨rfl, rfl, rfl, rfl, rfl, rfl, rfl, rfl, fun _ _ => rfl⟩

omit [DecidableEq K] in
theorem SamePlan.resolved (h : SamePlan r r') {key : K} {time : ℤ} (hrequired : (key, time) ∈ r.required) :
    r'.resolved key time = r.resolved key time := by
  rw [Readers.resolved, Readers.resolved, h.rings _ hrequired, h.failures]

omit [DecidableEq K] in
/-- The end of a backward window is planned. -/
theorem PlanFits.end_mem {key : K} {plan : Plan} (h : r.PlanFits key plan) {window : ℤ × ℤ}
    (hwindow : window ∈ plan.window) : window.2 ∈ plan.required :=
  List.mem_of_mem_head? (h.window window hwindow).1

omit [DecidableEq K] in
/-- A plan with a backward window serves a source whose window is held. -/
theorem PlanFits.held {key : K} {plan : Plan} (h : r.PlanFits key plan) {window : ℤ × ℤ}
    (hwindow : window ∈ plan.window) : r.windows.contains key := by
  obtain ⟨start, hheld⟩ := (h.window window hwindow).2
  exact KeyedMap.contains_iff.mpr ⟨_, hheld⟩

omit [DecidableEq K] in
theorem PlanFits.same {key : K} {plan : Plan} (h : r.PlanFits key plan) (hsame : SamePlan r r') :
    r'.PlanFits key plan where
  planned := by
    rw [hsame.required]
    exact h.planned
  ahead := by
    rw [hsame.required]
    exact h.ahead
  window := by
    rw [hsame.windows]
    exact h.window
  failed := by
    rw [hsame.failures]
    intro window hwindow time htime hne hfailed
    rw [hsame.resolved (h.planned _ (h.end_mem hwindow))]
    exact h.failed window hwindow time htime hne hfailed

omit [DecidableEq K] in
theorem FlightFits.ease {slot slot' : Slot K} (h : r.FlightFits slot)
    (hplan : r.PlanFits slot.key slot.plan) (hsame : SamePlan r r') (heases : slot.Eases slot') :
    r'.FlightFits slot' where
  version := by
    intro time version hstate
    rw [hsame.version]
    exact h.version time version (heases.decoding hstate)
  planned := by
    rw [heases.plan]
    intro time hstate
    exact h.planned time (heases.decoding hstate)
  window := by
    rw [heases.plan, heases.key]
    intro time hstate window hwindow
    have hend := hplan.planned _ (hplan.end_mem hwindow)
    rcases h.window time (heases.decoding hstate) window hwindow with ⟨rfl, hopen⟩ | ⟨hne, hdone⟩
    · rw [← hsame.resolved hend] at hopen
      exact Or.inl ⟨rfl, hopen⟩
    · rw [← hsame.resolved hend] at hdone
      exact Or.inr ⟨hne, hdone⟩

omit [DecidableEq K] in
theorem RegionFits.same {entry : K × Region} (h : r.RegionFits entry) (hsame : SamePlan r r') :
    r'.RegionFits entry := by
  refine ⟨?_, ?_, ?_⟩
  · rw [hsame.required]
    exact h.planned
  · rw [hsame.required]
    exact h.ahead
  · rw [hsame.windows, hsame.failures]
    exact h.failed

theorem owners_eq (hslots : r'.slots.map Slot.profile = r.slots.map Slot.profile)
    (hpending : r'.pending = r.pending) (key : K) : r'.owners key = r.owners key := by
  have hcount (slots : List (Slot K)) : (slots.countP fun slot => slot.key = key ∧ slot.plan.required ≠ [])
        = (slots.map Slot.profile).countP fun profile =>
            profile.2.1 = key ∧ profile.2.2.required ≠ [] := by
    rw [List.countP_map]
    rfl
  rw [owners, owners, hcount, hcount, hslots, hpending]

/-- Slots with the same ids, sources and plans, whose flights fit, leave the plans as they are. -/
theorem Consistent.of_profile (h : r.Consistent) (hsame : SamePlan r r')
    (hprofile : r'.slots.map Slot.profile = r.slots.map Slot.profile)
    (hflights : ∀ slot ∈ r'.slots, r'.FlightFits slot)
    (hapart : ∀ slot ∈ r'.slots, ∀ other ∈ r'.slots, slot.key = other.key → ∀ time,
      slot.state.flying = some time → other.state.flying = some time → slot.id = other.id) :
    r'.Consistent := by
  refine ⟨?_, hflights, hapart, ?_, ?_, ?_, ?_⟩
  · intro slot' hslot'
    have hmem : slot'.profile ∈ r.slots.map Slot.profile := hprofile ▸ List.mem_map_of_mem hslot'
    obtain ⟨slot, hslot, heq⟩ := List.mem_map.mp hmem
    obtain ⟨hkey, hplan⟩ := Prod.mk.inj (Prod.mk.inj heq).2
    rw [← hkey, ← hplan]
    exact (h.plans slot hslot).same hsame
  · rw [hsame.pending]
    exact fun entry hentry => (h.pending entry hentry).same hsame
  · rw [hsame.failures, hsame.required]
    exact h.failures
  · intro key hheld
    rw [owners_eq hprofile hsame.pending]
    rw [hsame.windows] at hheld
    exact h.sole key hheld
  · rw [hsame.continuation, hsame.windows]
    exact h.continued

/-- Slots that ease leave the plans as they are. -/
theorem Consistent.ease (h : r.Consistent) (hsame : SamePlan r r')
    (hslots : List.Forall₂ Slot.Eases r.slots r'.slots) : r'.Consistent := by
  refine h.of_profile hsame (map_eq_of_forall₂ hslots fun _ _ heases => heases.profile) ?_ ?_
  · intro slot' hslot'
    obtain ⟨slot, hslot, heases⟩ := mem_right_of_forall₂ hslots hslot'
    exact (h.flights slot hslot).ease (h.plans slot hslot) hsame heases
  · intro slot' hslot' other' hother' hkey time hflying hflying'
    obtain ⟨slot, hslot, heases⟩ := mem_right_of_forall₂ hslots hslot'
    obtain ⟨other, hother, heases'⟩ := mem_right_of_forall₂ hslots hother'
    rw [heases.key, heases'.key] at hkey
    rw [heases.id, heases'.id]
    exact h.apart slot hslot other hother hkey time (heases.flying hflying) (heases'.flying hflying')

omit [DecidableEq K] in
theorem Reserves.ease (h : r.Reserves) (hrequired : r'.required = r.required)
    (hslots : ∀ slot' ∈ r'.slots, ∃ slot ∈ r.slots, slot.Eases slot')
    (hreserved : ∀ frame, r'.reserved.contains frame → r.reserved.contains frame) :
    r'.Reserves := by
  intro frame hframe
  obtain ⟨hmem, hfree⟩ := h frame (hreserved frame hframe)
  refine ⟨hrequired ▸ hmem, ?_⟩
  intro slot' hslot' hkey hflying
  obtain ⟨slot, hslot, heases⟩ := hslots slot' hslot'
  exact hfree slot hslot (heases.key ▸ hkey) (heases.flying hflying)

omit [DecidableEq K] in
theorem StaleFits.ease {slot slot' : Slot K} (h : r.StaleFits slot) (hsame : SamePlan r r')
    (heases : slot.Eases slot') : r'.StaleFits slot' := by
  intro time version hstate hstale kept hkept hcontinued
  rw [heases.plan] at hstale ⊢
  rw [heases.key] at hcontinued ⊢
  rw [hsame.continuation] at hcontinued
  rw [hsame.failures]
  exact h time version (heases.decoding hstate) hstale kept (heases.retained hkept) hcontinued

/-- The slot afterwards has the same plan, and its reader has not retired unless nothing of the plan
is owed. -/
def Stays (r : Readers K F E) (slot slot' : Slot K) : Prop :=
  slot'.profile = slot.profile ∧ (slot'.state = .retiring → slot.state = .retiring ∨
    ∀ time ∈ slot.plan.required, (slot.key, time) ∈ r.required → r.resolved slot.key time)

omit [DecidableEq K] in
theorem Stays.refl (slot : Slot K) : r.Stays slot slot := ⟨rfl, fun hleft => Or.inl hleft⟩

/-- The state afterwards has the same plan and no new flights, and no reader has left one. -/
structure Lightens (r r' : Readers K F E) : Prop where
  same : SamePlan r r'
  slots : List.Forall₂ (fun slot slot' => slot.Eases slot' ∧ r.Stays slot slot') r.slots r'.slots
  reserved : ∀ frame, r'.reserved.contains frame → r.reserved.contains frame

omit [DecidableEq K] in
theorem SamePlan.trans {r'' : Readers K F E} (h : SamePlan r r') (h' : SamePlan r' r'') :
    SamePlan r r'' where
  version := h'.version.trans h.version
  limit := h'.limit.trans h.limit
  nextId := h'.nextId.trans h.nextId
  required := h'.required.trans h.required
  continuation := h'.continuation.trans h.continuation
  pending := h'.pending.trans h.pending
  windows := h'.windows.trans h.windows
  failures := h'.failures.trans h.failures
  rings := by
    intro frame hframe
    rw [h'.rings frame (h.required ▸ hframe), h.rings frame hframe]

omit [DecidableEq K] in
theorem Stays.trans {one two three : Slot K} (h : r.Stays one two) (hsame : SamePlan r r')
    (h' : r'.Stays two three) : r.Stays one three := by
  obtain ⟨hkey, hplan⟩ := Prod.mk.inj (Prod.mk.inj h.1).2
  refine ⟨h'.1.trans h.1, fun hleft => ?_⟩
  rcases h'.2 hleft with hbefore | hdone
  · exact h.2 hbefore
  · refine Or.inr fun time htime hrequired => ?_
    rw [hkey, hplan, hsame.required] at hdone
    rw [← hsame.resolved hrequired]
    exact hdone time htime hrequired

omit [DecidableEq K] in
theorem Lightens.trans {r'' : Readers K F E} (h : Lightens r r') (h' : Lightens r' r'') :
    Lightens r r'' where
  same := h.same.trans h'.same
  slots := by
    refine List.Forall₂.imp ?_ (forall₂_comp h.slots h'.slots)
    rintro one three ⟨two, ⟨heases, hstays⟩, heases', hstays'⟩
    exact ⟨heases.trans heases', hstays.trans h.same hstays'⟩
  reserved := fun frame hframe => h.reserved frame (h'.reserved frame hframe)

omit [DecidableEq K] in
/-- A reader that stays plans what it planned. -/
theorem Stays.carried {slot slot' : Slot K} (h : r.Stays slot slot') : r.Carried r.required slot slot' := by
  obtain ⟨hid, hprofile⟩ := Prod.mk.inj h.1
  obtain ⟨hkey, hplan⟩ := Prod.mk.inj hprofile
  refine ⟨hid, hkey, congrArg Plan.version hplan, ?_⟩
  intro hstay time htime hrequired
  by_cases hleft : slot'.state = .retiring
  · -- the reader retired, so nothing of its plan was owed
    exact Or.inl ((h.2 hleft).resolve_left hstay time htime hrequired)
  · exact Or.inr ⟨hleft, hplan ▸ htime⟩

omit [DecidableEq K] in
/-- The same plan with the same readers carries everything on. -/
theorem SamePlan.carries (h : SamePlan r r') (hslots : List.Forall₂ r.Stays r.slots r'.slots) :
    Carries r r' where
  version := h.version
  limit := h.limit
  nextId := h.nextId
  required := h.required ▸ subset_rfl
  resolved := by
    intro frame hframe hdone
    rw [h.required] at hframe
    rwa [h.resolved hframe]
  failures := by
    rw [h.failures]
    exact fun frame failure => Or.inl
  slots := by
    rw [h.required]
    exact hslots.imp fun _ _ hstays => hstays.carried
  pending := by
    rw [h.pending]
    exact List.forall₂_same.mpr fun entry _ => ⟨rfl, fun _ htime _ => htime⟩

theorem Kept.lighten (h : r.Kept limit) (hlightens : Lightens r r') : r'.Kept limit :=
  h.carry (hlightens.same.carries (hlightens.slots.imp fun _ _ hpair => hpair.2))

theorem Sound.lighten (h : r.Sound) (hlightens : Lightens r r') : r'.Sound := by
  have heases : List.Forall₂ Slot.Eases r.slots r'.slots := hlightens.slots.imp fun _ _ hpair => hpair.1
  refine ⟨h.base.ease hlightens.same heases, h.reserves.ease hlightens.same.required
    (fun slot' hslot' => mem_right_of_forall₂ heases hslot') hlightens.reserved, ?_⟩
  intro slot' hslot'
  obtain ⟨slot, hslot, hpair⟩ := mem_right_of_forall₂ heases hslot'
  exact (h.stale slot hslot).ease hlightens.same hpair

end Readers

end Kinewright.Media
