import Kinewright.Media.Posting

/-!
# Flights that a post superseded

A decode of an older version goes on after a post. It is of no plan any more: its failure does not
count, and what its reader keeps is continued by the reader's own plan, or was discarded. So a post
leaves the plans sound, if a source with a held window has one region in it.
-/

namespace Kinewright.Media

open List

namespace Readers

variable {K F E : Type} [DecidableEq K] {limit : ℕ} {r r' : Readers K F E}

/-- A job's regions beside its held windows: a source with a held window has one region and no
lookahead, and no required time of a source is a lookahead one. -/
structure Single (windows : KeyedMap K (ℤ × ℤ)) (regions : List (K × Region)) : Prop where
  separate : ∀ one ∈ regions, ∀ two ∈ regions, one.1 = two.1 → ∀ t ∈ one.2.lookahead, t ∉ two.2.required
  sole : ∀ key, windows.contains key → (regions.countP fun entry => entry.1 = key) ≤ 1
  bare : ∀ entry ∈ regions, windows.contains entry.1 → entry.2.lookahead = []

/-- What a post takes over from the state before it, whatever windows were held there: the flights,
and the reservations beside them. -/
structure Aloft (r : Readers K F E) : Prop where
  versions : ∀ slot ∈ r.slots, ∀ time version, slot.state = .decoding time version → version ≤ r.version
  apart : ∀ slot ∈ r.slots, ∀ other ∈ r.slots, slot.key = other.key → ∀ time,
    slot.state.flying = some time → other.state.flying = some time → slot.id = other.id
  reserves : r.Reserves

theorem Sound.aloft (h : r.Sound) : r.Aloft :=
  ⟨fun slot hslot => (h.base.flights slot hslot).version, h.base.apart, h.reserves⟩

/-! ## Placing regions -/

/-- The loop's invariant for the plans: those placed so far fit, no flight is of them, and a source
with a held window has at most one region, placed or to come. -/
structure Seating (detached : List ℕ) (joined : List (K × Region × Option (List ℤ)))
    (r : Readers K F E) (regions : List (K × Region × Option (List ℤ))) : Prop where
  versions : ∀ slot ∈ r.slots, slot.plan.version = r.version
  plans : ∀ slot ∈ r.slots, r.PlanFits slot.key slot.plan
  flights : ∀ slot ∈ r.slots, ∀ time version, slot.state = .decoding time version → version < r.version
  stays : ∀ slot ∈ r.slots, slot.state.flying ≠ none → slot.id ∉ detached
  apart : ∀ slot ∈ r.slots, ∀ other ∈ r.slots, slot.key = other.key → ∀ time,
    slot.state.flying = some time → other.state.flying = some time → slot.id = other.id
  pending : ∀ entry ∈ r.pending, r.RegionFits entry
  failures : ∀ frame, ¬ r.failures.contains frame
  sole : ∀ key, r.windows.contains key → r.owners key + (regions.countP fun entry => entry.1 = key) ≤ 1
  continued : ∀ frame ∈ r.continuation, ∃ window, r.windows.get? frame.1 = some window ∧ frame.2 < window.2
  reserves : r.Reserves
  served : ∀ slot ∈ r.slots, ¬ slot.obsolete → ∃ entry ∈ joined, entry.1 = slot.key ∧
    ∀ time ∈ entry.2.1.required, time ∈ slot.plan.required
  rest : ∀ entry ∈ regions, entry ∈ joined
  regions : ∀ entry ∈ joined, r.RegionFits (entry.1, entry.2.1) ∧
    ∀ times ∈ entry.2.2, ∀ time ∈ times, time ∈ entry.2.1.required

variable {slot : Slot K}

omit [DecidableEq K] in
theorem countP_updateSlots_le {slots : List (Slot K)}
    (hslot : (slots.find? fun other => other.id = slot.id) = some slot) (f : Slot K → Slot K)
    (p : Slot K → Bool) :
    (updateSlots slots slot.id f).countP p ≤ slots.countP p + if p (f slot) then 1 else 0 := by
  induction slots with
  | nil => cases hslot
  | cons head slots ih =>
    by_cases hid : head.id = slot.id
    · rw [find?_cons_of_pos (by simpa using hid)] at hslot
      obtain rfl := Option.some.inj hslot
      rw [updateSlots, if_pos rfl, countP_cons, countP_cons]
      omega
    · rw [find?_cons_of_neg (by simpa using hid)] at hslot
      have := ih hslot
      rw [updateSlots, if_neg hid, countP_cons, countP_cons]
      omega

/-- A reader that is given a plan makes at most one owner more, of its source. -/
theorem owners_serve (hnodup : (r.slots.map Slot.id).Nodup) (hslot : slot ∈ r.slots) (plan : Plan) (key : K) :
    (r.updateSlot slot.id fun slot => slot.serve plan).owners key ≤ r.owners key + if slot.key = key then 1 else 0 := by
  have hle := countP_updateSlots_le (slot?_eq_some_of_mem hnodup hslot)
    (fun slot => slot.serve plan) fun slot => slot.key = key ∧ slot.plan.required ≠ []
  unfold owners
  show (updateSlots r.slots _ _).countP _ + r.pending.countP _ ≤ _
  by_cases hkey : slot.key = key
  · rw [if_pos hkey]
    split at hle <;> omega
  · have hother : ¬ (decide ((slot.serve plan).key = key ∧
        (slot.serve plan).plan.required ≠ []) = true) := by
      rw [decide_eq_true_eq]
      exact fun hboth => hkey hboth.1
    rw [if_neg hother] at hle
    omega

variable {joined : List (K × Region × Option (List ℤ))}

theorem Seating.place {detached : List ℕ} {entry : K × Region × Option (List ℤ)}
    {regions : List (K × Region × Option (List ℤ))} (hnodup : (r.slots.map Slot.id).Nodup)
    (h : Seating detached joined r (entry :: regions)) (hplaced : Placed r entry r') :
    Seating detached joined r' regions := by
  have hentry := h.rest entry mem_cons_self
  have hrest : ∀ other ∈ regions, other ∈ joined := fun other hother => h.rest other (mem_cons_of_mem _ hother)
  obtain ⟨hfits, hkept⟩ := h.regions entry hentry
  cases hplaced with
  | @reader slot hslot hkey hstay hfree =>
    set plan := planOf r.version entry.2.1 (r.windows.get? entry.1) entry.2.2 with hplan
    have hmem {slot' : Slot K} (hslot' : slot' ∈ (r.updateSlot slot.id fun slot => slot.serve plan).slots) :
        slot' = slot.serve plan ∨ slot' ∈ r.slots :=
      ((mem_updateSlots hnodup (slot?_eq_some_of_mem hnodup hslot)).mp hslot').imp_right And.left
    -- flights are where they were
    have hflying : ∀ slot' ∈ (r.updateSlot slot.id fun slot => slot.serve plan).slots,
        ∃ old ∈ r.slots, old.id = slot'.id ∧ old.key = slot'.key ∧ old.state = slot'.state := by
      intro slot' hslot'
      rcases hmem hslot' with rfl | hold
      · exact ⟨slot, hslot, rfl, rfl, rfl⟩
      · exact ⟨slot', hold, rfl, rfl, rfl⟩
    have hserved : r.PlanFits slot.key plan := hkey ▸ planFits_planOf hkept hfits
    refine ⟨?_, ?_, ?_, ?_, ?_, ?_, h.failures, ?_, h.continued, ?_, ?_, hrest, ?_⟩
    · intro slot' hslot'
      rcases hmem hslot' with rfl | hold
      · exact planOf_version _ _ _ _
      · exact h.versions slot' hold
    · intro slot' hslot'
      rcases hmem hslot' with rfl | hold
      · exact ⟨hserved.planned, hserved.ahead, hserved.window, hserved.failed⟩
      · have hfits' := h.plans slot' hold
        exact ⟨hfits'.planned, hfits'.ahead, hfits'.window, hfits'.failed⟩
    · intro slot' hslot' time version hstate
      obtain ⟨old, hold, -, -, hsame⟩ := hflying slot' hslot'
      exact h.flights old hold time version (hsame.trans hstate)
    · intro slot' hslot' hflies
      obtain ⟨old, hold, hid, -, hsame⟩ := hflying slot' hslot'
      rw [← hid]
      exact h.stays old hold (hsame ▸ hflies)
    · intro one hone two htwo hkeys time hflies hflies'
      obtain ⟨old, hold, hid, hkey', hsame⟩ := hflying one hone
      obtain ⟨old', hold', hid', hkey'', hsame'⟩ := hflying two htwo
      rw [← hid, ← hid']
      refine h.apart old hold old' hold' ?_ time (hsame ▸ hflies) (hsame' ▸ hflies')
      rw [hkey', hkey'', hkeys]
    · intro other hother
      have hfits' := h.pending other hother
      exact ⟨hfits'.planned, hfits'.ahead, hfits'.failed⟩
    · intro key hheld
      have hsole := h.sole key hheld
      have howners := owners_serve (r := r) hnodup hslot plan key
      rw [countP_cons, ← hkey] at hsole
      by_cases hsource : slot.key = key
      · simp only [hsource, decide_true, if_true] at hsole howners
        omega
      · simp only [hsource, decide_false, if_false, Bool.false_eq_true] at hsole howners
        omega
    · intro frame hframe
      obtain ⟨hrequired, hfree'⟩ := h.reserves frame hframe
      refine ⟨hrequired, fun slot' hslot' hkey' => ?_⟩
      obtain ⟨old, hold, -, hkey'', hsame⟩ := hflying slot' hslot'
      rw [← hsame]
      exact hfree' old hold (hkey''.trans hkey')
    · intro slot' hslot' hplanned
      rcases hmem hslot' with rfl | hold
      · exact ⟨entry, hentry, hkey.symm, fun time htime => (mem_planOf_required hkept).mpr htime⟩
      · exact h.served slot' hold hplanned
    · intro other hother
      obtain ⟨hfits', hkept'⟩ := h.regions other hother
      exact ⟨⟨hfits'.planned, hfits'.ahead, hfits'.failed⟩, hkept'⟩
  | waits =>
    refine ⟨h.versions, ?_, h.flights, h.stays, h.apart, ?_, h.failures, ?_, h.continued,
      h.reserves, h.served, hrest, ?_⟩
    · intro slot hslot
      have hfits' := h.plans slot hslot
      exact ⟨hfits'.planned, hfits'.ahead, hfits'.window, hfits'.failed⟩
    · intro other hother
      rcases mem_append.mp hother with hold | hnew
      · have hfits' := h.pending other hold
        exact ⟨hfits'.planned, hfits'.ahead, hfits'.failed⟩
      · obtain rfl := mem_singleton.mp hnew
        exact ⟨hfits.planned, hfits.ahead, hfits.failed⟩
    · intro key hheld
      have hsole := h.sole key hheld
      unfold owners at hsole ⊢
      show r.slots.countP _ + (r.pending ++ [(entry.1, entry.2.1)]).countP _ + _ ≤ 1
      rw [countP_append, countP_singleton]
      rw [countP_cons] at hsole
      dsimp only
      omega
    · intro other hother
      obtain ⟨hfits', hkept'⟩ := h.regions other hother
      exact ⟨⟨hfits'.planned, hfits'.ahead, hfits'.failed⟩, hkept'⟩

theorem Seating.consistent {detached : List ℕ} (h : Seating detached joined r []) :
    r.Consistent where
  plans := h.plans
  flights := by
    intro slot hslot
    -- every flight is of an older version than its reader's plan
    have hold : ∀ time, slot.state ≠ .decoding time slot.plan.version := by
      intro time hstate
      have hlt := h.flights slot hslot time _ hstate
      rw [h.versions slot hslot] at hlt
      exact lt_irrefl _ hlt
    refine ⟨fun time version hstate => (h.flights slot hslot time version hstate).le, ?_, ?_⟩
    all_goals exact fun time hstate => absurd hstate (hold time)
  apart := h.apart
  pending := h.pending
  failures := fun frame hfailed => absurd hfailed (h.failures frame)
  sole := fun key hheld => by simpa using h.sole key hheld
  continued := h.continued

/-! ## Handing off -/

/-- A reader without a plan that may hand its frames off keeps none that the plan wants. -/
theorem handOffSlot_retained (wanted : KeyedMap K (Finset ℤ)) (detached : List ℕ)
    (s : KeyedMap (K × ℤ) ℕ × Finset (K × ℤ)) (hfree : slot.obsolete)
    (hstay : slot.state ≠ .retiring) (hattached : slot.id ∉ detached) {time : ℤ}
    (htime : time ∈ (handOffSlot wanted detached s slot).2.retained) :
    time ∉ (wanted.get? slot.key).getD ∅ := by
  simp only [Slot.obsolete, Bool.and_eq_true, List.isEmpty_iff] at hfree
  have hown : ownKept slot = [] := by
    rw [ownKept, hfree.1, hfree.2]
    rfl
  unfold handOffSlot at htime
  split at htime
  · rename_i hnone
    intro hwanted
    have hhanded : time ∈ handedKept wanted slot := by
      refine Finset.mem_filter.mpr ⟨htime, ?_⟩
      rw [elsewhere, hown]
      simpa using hwanted
    rcases hnone with hempty | hretiring | hdetached
    · rw [hempty] at hhanded
      exact Finset.notMem_empty _ hhanded
    · exact hstay hretiring
    · exact hattached hdetached
  · -- without own kept times the range is empty, and everything goes
    exfalso
    obtain ⟨hin, hgone⟩ := Finset.mem_sdiff.mp htime
    have hrange : ownRange slot = (i64Max, i64Min) := by
      rw [ownRange, hown]
      rfl
    refine hgone (Finset.mem_filter.mpr ⟨hin, ?_⟩)
    rw [hrange]
    simp only [i64Max, i64Min]
    omega

/-- Two regions of a source with at most one are the same. -/
theorem eq_of_countP_le_one {key : K} (h : (joined.countP fun entry => entry.1 = key) ≤ 1)
    {one two : K × Region × Option (List ℤ)} (hone : one ∈ joined) (htwo : two ∈ joined)
    (hkey : one.1 = key) (hkey' : two.1 = key) : one = two := by
  rw [countP_eq_length_filter] at h
  refine eq_of_length_le_one h ?_ ?_
  · exact mem_filter.mpr ⟨hone, by simpa using hkey⟩
  · exact mem_filter.mpr ⟨htwo, by simpa using hkey'⟩

/-- What a superseded flight's reader keeps of the continued times, its own plan has. -/
theorem Seating.handOff {detached : List ℕ} (h : Seating detached joined r [])
    (hcontinued : ∀ frame ∈ r.continuation, frame.2 ∈ (r.wanted.get? frame.1).getD ∅ ∧
      ∃ entry ∈ joined, entry.1 = frame.1 ∧ frame.2 ∈ entry.2.1.required)
    (hsole : ∀ key, r.windows.contains key → (joined.countP fun entry => entry.1 = key) ≤ 1) :
    (r.handOff detached).Sound := by
  have hlightens := lightens_handOff (r := r) detached
  have heases : List.Forall₂ Slot.Eases r.slots (r.handOff detached).slots :=
    hlightens.slots.imp fun _ _ hpair => hpair.1
  refine ⟨h.consistent.ease hlightens.same heases, h.reserves.ease hlightens.same.required
    (fun slot' hslot' => mem_right_of_forall₂ heases hslot') hlightens.reserved, ?_⟩
  intro slot' hslot' time version hstate _ kept hkept hframe
  have hpass := forall₂_threadSlots (f := handOffSlot r.wanted detached)
    (R := fun slot slot' => slot.Eases slot' ∧ (slot.obsolete → slot.state ≠ .retiring →
      slot.id ∉ detached → ∀ time ∈ slot'.retained, time ∉ (r.wanted.get? slot.key).getD ∅))
    (fun s slot => ⟨?_, fun hfree hstay hattached time htime =>
      handOffSlot_retained r.wanted detached s hfree hstay hattached htime⟩)
    (r.reserved, ∅) r.slots
  · obtain ⟨slot, hslot, hpair, hdrops⟩ := mem_right_of_forall₂ hpass hslot'
    have hdecoding := hpair.decoding hstate
    have hframe : (slot.key, kept) ∈ r.continuation := by
      rw [← hpair.key]
      exact hframe
    obtain ⟨hwanted, entry, hentry, hkey, htime⟩ := hcontinued _ hframe
    refine ⟨?_, h.failures _⟩
    by_cases hfree : slot.obsolete
    · refine absurd hwanted (hdrops hfree ?_ ?_ kept hkept)
      · rw [hdecoding]
        nofun
      · refine h.stays slot hslot ?_
        rw [hdecoding]
        nofun
    · -- the reader serves the one region of its source, with every continued time
      obtain ⟨served, hserved, hkey', hplan⟩ := h.served slot hslot hfree
      obtain ⟨window, hwindow, -⟩ := h.continued _ hframe
      have hheld := hsole slot.key (KeyedMap.contains_iff.mpr ⟨window, hwindow⟩)
      obtain rfl := eq_of_countP_le_one hheld hentry hserved hkey hkey'
      rw [hpair.plan]
      exact hplan kept htime
  · unfold handOffSlot
    split
    · exact .refl slot
    · exact (eases_discardKept _ _ _ _).1

/-- Free readers and the queue take every region of a plan, each source with a held window one. -/
theorem Seating.placePlan {regions : List (K × Region)} {continued : KeyedMap K (List ℤ)} {detached : List ℕ}
    (h : Seating detached (joinRegions continued regions) r (joinRegions continued regions))
    (hnodup : (r.slots.map Slot.id).Nodup) (hfree : ∀ slot ∈ r.slots, slot.obsolete)
    (hcontinued : ∀ frame ∈ r.continuation, frame.2 ∈ (r.wanted.get? frame.1).getD ∅ ∧
      ∃ entry ∈ joinRegions continued regions, entry.1 = frame.1 ∧
        frame.2 ∈ entry.2.1.required) : (r.placePlan regions continued detached).Sound := by
  have hplaced := placeRegions_induct (r := r)
    (P := Seating detached (joinRegions continued regions))
    (fun _ _ _ _ hnodup hseating hplaced => hseating.place hnodup hplaced) hnodup
    (.start hnodup hfree detached) h
  have heq := placeRegions_eq (keepers r.slots (joinRegions continued regions) detached) r 0
    (joinRegions continued regions)
  unfold Readers.placePlan
  dsimp only
  generalize placeRegions (keepers r.slots (joinRegions continued regions) detached) r 0
    (joinRegions continued regions) = placed at hplaced heq ⊢
  refine hplaced.handOff ?_ ?_
  · rw [heq]
    exact hcontinued
  · intro key hheld
    have hwindows : placed.windows = r.windows := by rw [heq]
    rw [hwindows] at hheld
    have := h.sole key hheld
    omega

/-! ## The post -/

section Post

variable {regions : List (K × Region)} {sizes : KeyedMap K ℕ} {generated : ℕ}
  {detached : List ℕ}

/-- A continued frame of a post is one of a continued window's times. -/
theorem mem_readied_continuation {frame : K × ℤ}
    (h : frame ∈ (r.readied regions sizes generated detached).continuation) :
    ∃ kept, (r.continuedFor regions sizes generated detached).get? frame.1 = some kept ∧ frame.2 ∈ kept := by
  obtain ⟨hframes, -⟩ := Finset.mem_filter.mp h
  obtain ⟨key, hkey, himage⟩ := Finset.mem_biUnion.mp hframes
  obtain ⟨time, htime, rfl⟩ := Finset.mem_image.mp himage
  obtain ⟨kept, hkept⟩ := Option.isSome_iff_exists.mp ((KeyedMap.mem_keys _ _).mp hkey)
  rw [hkept] at htime
  exact ⟨kept, hkept, mem_toFinset.mp htime⟩

/-- The plan wants what it continues. -/
theorem wanted_readied {key : K} {kept : List ℤ}
    (h : (r.continuedFor regions sizes generated detached).get? key = some kept) :
    ∃ wanted, (r.readied regions sizes generated detached).wanted.get? key = some wanted ∧
      ∀ time ∈ kept, time ∈ wanted := by
  have hkey : key ∈ (r.continuedFor regions sizes generated detached).keys :=
    (KeyedMap.mem_keys _ _).mpr (by rw [h]; rfl)
  refine ⟨((r.announce regions sizes generated).wanted.get? key).getD ∅ ∪ kept.toFinset, ?_, ?_⟩
  · show (KeyedMap.extend _ _ _).get? key = _
    rw [KeyedMap.get?_extend, if_pos hkey, h]
    rfl
  · exact fun time htime => Finset.mem_union_right _ (mem_toFinset.mpr htime)

/-- The windows that a post holds on were held, and those of a continued source stay. -/
theorem windows_readied {key : K} {window : ℤ × ℤ} :
    (r.readied regions sizes generated detached).windows.get? key = some window ↔ r.windows.get? key = some window ∧
        (r.readied regions sizes generated detached).wanted.contains key :=
  KeyedMap.get?_filter_eq_some

/-- A continued source has a held window, before and after. -/
theorem held_of_continued {key : K} {kept : List ℤ}
    (h : (r.continuedFor regions sizes generated detached).get? key = some kept) :
    ∃ window, r.windows.get? key = some window ∧
      (r.readied regions sizes generated detached).windows.get? key = some window ∧
      ∀ time ∈ kept, time < window.2 := by
  obtain ⟨window, hwindow, hbelow⟩ := (continues_fitted h).held
  obtain ⟨wanted, hwanted, -⟩ := wanted_readied h
  refine ⟨window, hwindow, windows_readied.mpr ⟨hwindow, ?_⟩, hbelow⟩
  exact KeyedMap.contains_iff.mpr ⟨wanted, hwanted⟩

/-- A joined region fits the post. -/
theorem regionFits_joined (hsingle : Single r.windows regions) {joined : K × Region × Option (List ℤ)}
    (hjoined : joined ∈ joinRegions (r.continuedFor regions sizes generated detached) regions) :
    (r.readied regions sizes generated detached).RegionFits (joined.1, joined.2.1) := by
  obtain ⟨entry, hentry, hjoins⟩ := mem_right_of_forall₂ forall₂_joinRegions hjoined
  refine ⟨?_, ?_, fun _ _ _ => nofun⟩
  · intro time htime
    refine mem_readied_required.mpr ((hjoins.required time htime).imp (fun hin => ?_) fun hin => ?_)
    · exact ⟨entry, hentry, hjoins.key.symm, hin⟩
    · rw [hjoins.key]
      exact hin
  · intro time htime hrequired
    have hahead : time ∈ entry.2.lookahead := hjoins.lookahead ▸ htime
    rcases mem_readied_required.mp hrequired with ⟨other, hother, hkey, hin⟩ | ⟨kept, hkept, -⟩
    · exact hsingle.separate entry hentry other hother (hjoins.key.symm.trans hkey.symm) time hahead hin
    · -- a continued source has a held window, and so no lookahead
      obtain ⟨window, hwindow, -⟩ := held_of_continued hkept
      have hheld : r.windows.contains entry.1 := by
        rw [← hjoins.key]
        exact KeyedMap.contains_iff.mpr ⟨window, hwindow⟩
      rw [hsingle.bare entry hentry hheld] at hahead
      cases hahead

/-- What holds before the regions of a post are placed. -/
theorem Seating.start (h : r.Aloft) (hsingle : Single r.windows regions)
    (hdetached : ∀ slot ∈ r.slots, slot.id ∈ detached → slot.state = .retiring) :
    Seating detached (joinRegions (r.continuedFor regions sizes generated detached) regions)
      (r.readied regions sizes generated detached)
      (joinRegions (r.continuedFor regions sizes generated detached) regions) := by
  have hslots := @forall₂_readied K F E _ r regions sizes generated detached
  -- a flight was one before the post
  have hflying {slot' : Slot K} (hslot' : slot' ∈ (r.readied regions sizes generated detached).slots)
      (hflies : slot'.state.flying ≠ none) : ∃ slot ∈ r.slots, slot.id = slot'.id ∧
        slot.key = slot'.key ∧ slot.state = slot'.state := by
    obtain ⟨slot, hslot, hcleared⟩ := mem_right_of_forall₂ hslots hslot'
    exact ⟨slot, hslot, hcleared.id.symm, hcleared.key.symm, (hcleared.flight.resolve_right hflies).symm⟩
  refine ⟨?_, ?_, ?_, ?_, ?_, fun _ hpending => (by cases hpending), fun _ hfailed => (by cases hfailed), ?_, ?_, ?_, ?_, fun _ => id, ?_⟩
  · intro slot' hslot'
    obtain ⟨slot, -, hcleared⟩ := mem_right_of_forall₂ hslots hslot'
    rw [hcleared.plan]
    rfl
  · intro slot' hslot'
    obtain ⟨slot, -, hcleared⟩ := mem_right_of_forall₂ hslots hslot'
    rw [hcleared.plan]
    refine ⟨?_, ?_, ?_, ?_⟩
    · intro _ htime
      cases htime
    · intro _ htime
      cases htime
    all_goals
      intro _ hwindow
      cases hwindow
  · intro slot' hslot' time version hstate
    obtain ⟨slot, hslot, -, -, hsame⟩ := hflying hslot' (by rw [hstate]; rintro ⟨⟩)
    exact Nat.lt_succ_of_le (h.versions slot hslot time version (hsame.trans hstate))
  · intro slot' hslot' hflies hin
    obtain ⟨slot, hslot, hid, -, hsame⟩ := hflying hslot' hflies
    rw [← hsame, hdetached slot hslot (hid ▸ hin)] at hflies
    exact hflies rfl
  · intro one hone two htwo hkeys time hflies hflies'
    obtain ⟨old, hold, hid, hkey, hsame⟩ := hflying hone (by rw [hflies]; rintro ⟨⟩)
    obtain ⟨old', hold', hid', hkey', hsame'⟩ := hflying htwo (by rw [hflies']; rintro ⟨⟩)
    rw [← hid, ← hid']
    refine h.apart old hold old' hold' ?_ time (hsame ▸ hflies) (hsame' ▸ hflies')
    rw [hkey, hkey', hkeys]
  · intro key hheld
    obtain ⟨window, hwindow⟩ := KeyedMap.contains_iff.mp hheld
    have hsole := hsingle.sole key (KeyedMap.contains_iff.mpr ⟨window, (windows_readied.mp hwindow).1⟩)
    have hnone : (r.readied regions sizes generated detached).owners key = 0 := by
      rw [owners, Nat.add_eq_zero_iff, countP_eq_zero]
      refine ⟨fun slot' hslot' => ?_, rfl⟩
      obtain ⟨slot, -, hcleared⟩ := mem_right_of_forall₂ hslots hslot'
      rw [hcleared.plan]
      simp [emptyPlan]
    have hjoined := congrArg (List.countP (· = key)) (@map_fst_joinRegions K _
      (r.continuedFor regions sizes generated detached) regions)
    rw [countP_map, countP_map] at hjoined
    rw [hnone, Nat.zero_add]
    exact hjoined.trans_le hsole
  · intro frame hframe
    obtain ⟨kept, hkept, htime⟩ := mem_readied_continuation hframe
    obtain ⟨window, -, hwindow, hbelow⟩ := held_of_continued hkept
    exact ⟨window, hwindow, hbelow _ htime⟩
  · intro frame hframe
    obtain ⟨hold, hrequired⟩ := contains_readied hframe
    refine ⟨hrequired, fun slot' hslot' hkey hflies => ?_⟩
    obtain ⟨slot, hslot, -, hkey', hsame⟩ := hflying hslot' (by rw [hflies]; rintro ⟨⟩)
    exact (h.reserves frame hold).2 slot hslot (hkey'.trans hkey) (hsame ▸ hflies)
  · intro slot hslot hplanned
    exact absurd (obsolete_readied hslot) hplanned
  · intro joined hjoined
    obtain ⟨entry, -, hjoins⟩ := mem_right_of_forall₂ forall₂_joinRegions hjoined
    exact ⟨regionFits_joined hsingle hjoined, hjoins.kept⟩

/-- A post of a job whose held windows are single makes the plans sound. -/
theorem Sound.postWithin (h : r.Aloft) (hkept : r.Kept limit) (hsingle : Single r.windows regions)
    (hdetached : ∀ slot ∈ r.slots, slot.id ∈ detached → slot.state = .retiring)
    (sizes : KeyedMap K ℕ) (generated now : ℕ) :
    (r.postWithin regions sizes generated detached now).2.Sound := by
  rw [postWithin_eq]
  refine Sound.assign (Sound.lighten ?_ (lightens_wantFor _)) now
  have hready : Kept limit { r.readied regions sizes generated detached with required := ∅ } := hkept.readied
  refine (Seating.start h hsingle hdetached).placePlan hready.nodup
    (fun _ hslot => obsolete_readied hslot) fun frame hframe => ?_
  obtain ⟨kept, hcontinued, htime⟩ := mem_readied_continuation hframe
  obtain ⟨wanted, hwanted, hin⟩ := wanted_readied hcontinued
  refine ⟨?_, mem_joined_of_required (mem_readied_required.mpr (Or.inr ⟨kept, hcontinued, htime⟩))⟩
  rw [hwanted]
  exact hin _ htime

/-- The counters of a planned job are no part of a plan. -/
theorem kept_counted (h : r.Kept limit) (merged folded : ℕ) :
    Kept limit { r with regionsMerged := merged, regionsFolded := folded } :=
  h.lighten (lightens_same ⟨rfl, rfl, rfl, rfl, rfl, rfl, rfl, rfl, fun _ _ => rfl⟩ rfl
    fun _ hframe => hframe)

theorem Kept.postPlanned (h : r.Kept limit) (planned : Planned K) (sizes : KeyedMap K ℕ)
    (generated : ℕ) (detached : List ℕ) (now : ℕ) :
    (r.postPlanned planned sizes generated detached now).2.Kept limit :=
  (kept_counted h _ _).postWithin planned.regions sizes generated detached now

theorem Sound.postPlanned (h : r.Aloft) (hkept : r.Kept limit) {planned : Planned K}
    (hsingle : Single r.windows planned.regions)
    (hdetached : ∀ slot ∈ r.slots, slot.id ∈ detached → slot.state = .retiring)
    (sizes : KeyedMap K ℕ) (generated now : ℕ) :
    (r.postPlanned planned sizes generated detached now).2.Sound := by
  have hcounted : Aloft { r with
      regionsMerged := r.regionsMerged + planned.merged
      regionsFolded := r.regionsFolded + planned.folded } := ⟨h.versions, h.apart, h.reserves⟩
  exact Sound.postWithin hcounted (kept_counted hkept _ _) hsingle hdetached sizes generated now

/-! ## Holding windows -/

theorem Kept.hold (h : r.Kept limit) (windows : KeyedMap K (ℤ × ℤ)) (kept : KeyedMap K ℕ) :
    (r.hold windows kept).Kept limit := by
  refine h.carry ⟨rfl, rfl, rfl, subset_rfl, fun _ _ => id, fun _ _ => Or.inl, ?_, ?_⟩
  · exact forall₂_same.mpr fun slot _ => .refl _ slot
  · exact forall₂_same.mpr fun _ _ => ⟨rfl, fun _ htime _ => htime⟩

omit [DecidableEq K] in
theorem Aloft.hold (h : r.Aloft) (windows : KeyedMap K (ℤ × ℤ)) (kept : KeyedMap K ℕ) :
    (r.hold windows kept).Aloft := ⟨h.versions, h.apart, h.reserves⟩

end Post

end Readers

end Kinewright.Media
