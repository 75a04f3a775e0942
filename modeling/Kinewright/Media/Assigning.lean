import Kinewright.Media.Refills

/-!
# Waiting regions get their readers

`admit`, the exits and `assign`. A region that waits moves to a reader that is started for it, so
that what it requires goes from the waiting regions to a plan. An idle reader retires only with an
empty plan.
-/

namespace Kinewright.Media

open List

namespace Readers

variable {K F E : Type} [DecidableEq K] {limit : ℕ} {r r' : Readers K F E}

/-! ## Admission -/

omit [DecidableEq K] in
theorem lightens_adopt (bytes : ℕ) : Lightens r (r.adopt bytes).2 := by
  unfold adopt
  split
  · exact lightens_same (.refl r) rfl fun _ hframe => hframe
  · refine lightens_same (samePlan_reserve bytes r.budget) (reserve_slots bytes r.budget) ?_
    rw [reserve_reserved]
    exact fun _ hframe => hframe

omit [DecidableEq K] in
/-- Rings lose no frame that is required. -/
theorem samePlan_rings {rings : KeyedMap (K × ℤ) F}
    (h : ∀ frame ∈ r.required, rings.contains frame = r.rings.contains frame) :
    SamePlan r { r with rings } :=
  ⟨rfl, rfl, rfl, rfl, rfl, rfl, rfl, rfl, h⟩

/-- An eviction takes no required frame. -/
theorem lightens_evict [Weighed F] (pinned : F → Bool) (need : ℕ) (victims : List (K × ℤ)) :
    Lightens r (evict pinned r need victims).2 := by
  induction victims generalizing r need with
  | nil => exact lightens_same (.refl r) rfl fun _ hframe => hframe
  | cons victim victims ih =>
    rw [evict]
    by_cases hneed : need = 0
    · rw [if_pos hneed]
      exact lightens_same (.refl r) rfl fun _ hframe => hframe
    · rw [if_neg hneed]
      split
      · exact ih need
      · rename_i frame hvictim
        have hfree := (Option.filter_eq_some_iff.mp hvictim).2
        simp only [decide_eq_true_eq] at hfree
        have herased : Lightens r { r with rings := r.rings.erase victim } := by
          refine lightens_same (samePlan_rings fun other hother => ?_) rfl fun _ hframe => hframe
          have hne : other ≠ victim := by
            rintro rfl
            exact hfree.1 hother
          rw [KeyedMap.contains, KeyedMap.get?_erase, if_neg hne, KeyedMap.contains]
        exact herased.trans (ih _)

variable {generated : ℕ} {pinned : F → Bool} {victims : List (K × ℤ)} {admission : Admission F}

/-- `admit` only evicts, or it reserves frames that are required and that nobody has or decodes. -/
theorem admitRequired_changes [Weighed F] (h : r.admitRequired generated pinned victims = some (admission, r')) :
    Lightens r r' ∨ SamePlan r r' ∧ r'.slots = r.slots ∧ ∀ frame, r'.reserved.contains frame →
      r.reserved.contains frame ∨ frame ∈ r.required ∧ r.missing frame := by
  simp only [admitRequired] at h
  split at h
  · cases h
  · split at h
    · rename_i reserved hreserve
      obtain ⟨-, rfl⟩ := Prod.mk.inj (Option.some.inj h)
      -- the ledger moves, and the new reservations join the old ones
      have hsame : SamePlan r reserved := by
        have hsame := samePlan_reserve (r := r) (∑ frame ∈ r.required.filter fun frame =>
          r.missing frame, r.keptCharge frame.1 frame.2 + generated) r.budget
        rwa [hreserve] at hsame
      have hslots : reserved.slots = r.slots := by
        have hslots := reserve_slots (r := r) (∑ frame ∈ r.required.filter fun frame =>
          r.missing frame, r.keptCharge frame.1 frame.2 + generated) r.budget
        rwa [hreserve] at hslots
      refine Or.inr ⟨⟨hsame.version, hsame.limit, hsame.nextId, hsame.required,
        hsame.continuation, hsame.pending, hsame.windows, hsame.failures, hsame.rings⟩, hslots, ?_⟩
      intro frame hframe
      rw [KeyedMap.contains, KeyedMap.get?_extend] at hframe
      split at hframe
      · rename_i hmissing
        exact Or.inr (Finset.mem_filter.mp hmissing)
      · exact Or.inl hframe
    · obtain ⟨-, rfl⟩ := Prod.mk.inj (Option.some.inj h)
      have hdrain : Lightens r { r with draining := true } :=
        lightens_same ⟨rfl, rfl, rfl, rfl, rfl, rfl, rfl, rfl, fun _ _ => rfl⟩ rfl
          fun _ hframe => hframe
      exact Or.inl (hdrain.trans (lightens_evict pinned _ victims))

theorem Kept.admitRequired [Weighed F] (h : r.Kept limit)
    (hadmitted : r.admitRequired generated pinned victims = some (admission, r')) :
    r'.Kept limit := by
  rcases admitRequired_changes hadmitted with hlightens | ⟨hsame, hslots, -⟩
  · exact h.lighten hlightens
  · refine h.carry (hsame.carries ?_)
    rw [hslots]
    exact forall₂_same.mpr fun slot _ => .refl slot

theorem Sound.admitRequired [Weighed F] (h : r.Sound)
    (hadmitted : r.admitRequired generated pinned victims = some (admission, r')) :
    r'.Sound := by
  rcases admitRequired_changes hadmitted with hlightens | ⟨hsame, hslots, hreserved⟩
  · exact h.lighten hlightens
  · refine ⟨h.base.ease hsame ?_, ?_, ?_⟩
    · rw [hslots]
      exact forall₂_same.mpr fun slot _ => .refl slot
    · intro frame hframe
      rw [hsame.required, hslots]
      rcases hreserved frame hframe with hold | ⟨hrequired, hmissing⟩
      · exact h.reserves frame hold
      · refine ⟨hrequired, fun slot hslot hkey hflying => ?_⟩
        simp only [missing, decide_eq_true_eq] at hmissing
        refine hmissing.2.2.2 (any_eq_true.mpr ⟨slot, hslot, ?_⟩)
        simp [hkey, hflying]
    · rw [hslots]
      exact fun slot hslot => (h.stale slot hslot).ease hsame (.refl slot)

/-! ## Exits and the cache -/

/-- A reader exits once it has retired. -/
theorem Kept.exited (h : r.Kept limit) {id : ℕ}
    (hretired : ∀ slot ∈ r.slot? id, slot.state = .retiring) : (r.exited id).Kept limit := by
  unfold Readers.exited
  split
  · exact h
  · rename_i slot hslot
    exact h.leave (slot?_mem hslot) (Or.inl (hretired slot hslot))

theorem Sound.exited (h : r.Sound) (id : ℕ) : (r.exited id).Sound := by
  unfold Readers.exited
  split
  · exact h
  · exact h.leave _

/-- A cleared cache keeps what a waiting job requires. -/
theorem lightens_clearCache (now : ℕ) : Lightens r (r.clearCache true now).2 := by
  refine lightens_same (samePlan_rings fun frame hframe => ?_) rfl fun _ hframe => hframe
  rw [KeyedMap.contains, KeyedMap.get?_filter, KeyedMap.contains]
  rcases r.rings.get? frame with _ | value
  · rfl
  · simp [hframe]

/-! ## The plan of a region -/

omit [DecidableEq K] in
theorem planOf_version (version : ℕ) (region : Region) (window : Option (ℤ × ℤ))
    (kept : Option (List ℤ)) : (planOf version region window kept).version = version := by
  rcases kept with _ | kept <;> rfl

variable {version : ℕ} {region : Region} {kept : Option (List ℤ)}

omit [DecidableEq K] in
theorem mem_planOf_lookahead {window : Option (ℤ × ℤ)} {time : ℤ} :
    time ∈ (planOf version region window kept).lookahead ↔ time ∈ region.lookahead := by
  rcases kept with _ | kept <;> exact mem_sortTimes

omit [DecidableEq K] in
/-- The plan of a region has what the region requires, its continued times among them. -/
theorem mem_planOf_required {window : Option (ℤ × ℤ)}
    (hkept : ∀ times ∈ kept, ∀ time ∈ times, time ∈ region.required) {time : ℤ} :
    time ∈ (planOf version region window kept).required ↔ time ∈ region.required := by
  rcases kept with _ | kept
  · show time ∈ (if _ then (sortTimes region.required).reverse else sortTimes region.required) ↔ _
    split
    · rw [mem_reverse, mem_sortTimes]
    · exact mem_sortTimes
  · show time ∈ (sortTimes region.required).reverse.filter (fun time => time ∉ kept) ++ kept ↔ _
    rw [mem_append, mem_filter, mem_reverse, mem_sortTimes, decide_eq_true_eq]
    constructor
    · rintro (⟨htime, -⟩ | htime)
      · exact htime
      · exact hkept kept rfl time htime
    · intro htime
      by_cases hin : time ∈ kept
      · exact Or.inr hin
      · exact Or.inl ⟨htime, hin⟩

omit [DecidableEq K] in
/-- The largest of the sorted times comes first in reverse. -/
theorem head?_reverse_sortTimes {times : List ℤ} {t : ℤ} (ht : t ∈ times)
    (hmax : ∀ time ∈ times, time ≤ t) : (sortTimes times).reverse.head? = some t := by
  rw [head?_reverse]
  have hsorted : (sortTimes times).Pairwise (· ≤ ·) := pairwise_insertionSort _ times
  have hmem : t ∈ sortTimes times := mem_sortTimes.mpr ht
  rcases eq_nil_or_concat (sortTimes times) with hnil | ⟨init, last, hconcat⟩
  · rw [hnil] at hmem
    cases hmem
  · rw [concat_eq_append] at hconcat
    rw [hconcat] at hsorted hmem ⊢
    rw [getLast?_concat]
    have hlast : last ≤ t := hmax last (mem_sortTimes.mp (by rw [hconcat]; simp))
    rcases mem_append.mp hmem with hinit | hsame
    · have hle := (pairwise_append.mp hsorted).2.2 t hinit last (by simp)
      rw [le_antisymm hlast hle]
    · rw [mem_singleton.mp hsame]

omit [DecidableEq K] in
/-- A backward window of a plan is the held one, and its end heads the plan. -/
theorem planOf_window {held : Option (ℤ × ℤ)} {window : ℤ × ℤ}
    (hwindow : window ∈ (planOf version region held kept).window) :
    held = some window ∧ (planOf version region held kept).required.head? = some window.2 := by
  rcases kept with _ | kept
  · have hfilter : held.filter (fun times => ¬ region.merged ∧
        (sortTimes region.required).length > 1 ∧ times.2 ∈ sortTimes region.required ∧
          (sortTimes region.required).all fun time => times.1 ≤ time ∧ time ≤ times.2) = some window :=
      hwindow
    obtain ⟨hheld, hfits⟩ := Option.filter_eq_some_iff.mp hfilter
    simp only [decide_eq_true_eq, all_eq_true] at hfits
    obtain ⟨-, -, ht, hall⟩ := hfits
    refine ⟨hheld, ?_⟩
    show (if (held.filter _).isSome then (sortTimes region.required).reverse
      else sortTimes region.required).head? = _
    rw [hfilter, Option.isSome_some, if_pos rfl]
    refine head?_reverse_sortTimes (mem_sortTimes.mp ht) fun time htime => ?_
    exact (hall time (mem_sortTimes.mpr htime)).2
  · cases hwindow

omit [DecidableEq K] in
/-- The plan of a region that fits the job fits it. -/
theorem planFits_planOf {key : K} (hkept : ∀ times ∈ kept, ∀ time ∈ times, time ∈ region.required)
    (hregion : r.RegionFits (key, region)) :
    r.PlanFits key (planOf r.version region (r.windows.get? key) kept) where
  planned := fun time htime => hregion.planned time ((mem_planOf_required hkept).mp htime)
  ahead := fun time htime => hregion.ahead time (mem_planOf_lookahead.mp htime)
  window := by
    intro window hwindow
    obtain ⟨hheld, hhead⟩ := planOf_window hwindow
    exact ⟨hhead, window.1, hheld⟩
  failed := by
    intro window hwindow time htime _ hfailed
    have hheld := KeyedMap.contains_iff.mpr ⟨window, (planOf_window hwindow).1⟩
    exact absurd hfailed (hregion.failed hheld time ((mem_planOf_required hkept).mp htime))

/-! ## Starting readers -/

/-- The state once a reader is started for a region, while others wait. -/
def started (r : Readers K F E) (now : ℕ) (entry : K × Region) (waiting : List (K × Region)) : Readers K F E :=
  { r with
    slots := r.slots ++ [newSlot r.nextId entry.1
        (planOf r.version entry.2 (r.windows.get? entry.1) none) now]
    nextId := r.nextId + 1
    pending := waiting }

variable {entry : K × Region} {waiting : List (K × Region)}

omit [DecidableEq K] in
theorem mem_started {now : ℕ} {slot : Slot K} :
    slot ∈ (r.started now entry waiting).slots ↔ slot ∈ r.slots ∨ slot = newSlot r.nextId entry.1
        (planOf r.version entry.2 (r.windows.get? entry.1) none) now := by
  rw [started, mem_append, mem_singleton]

/-- A reader is started for a waiting region while H-1 and H-5 leave room. -/
theorem Kept.started {waiting' : List (K × Region)} (h : Kept limit { r with pending := waiting ++ entry :: waiting' })
    (hroom : r.slots.length < r.limit)
    (hsource : (r.slots.countP fun slot => slot.key = entry.1) < readersPerSource) (now : ℕ) :
    (r.started now entry (waiting ++ waiting')).Kept limit := by
  refine ⟨?_, ?_, h.bound, ?_, ?_, ?_, h.failures, ?_⟩
  · show ((r.slots ++ [_]).map Slot.id).Nodup
    rw [map_append, nodup_append]
    refine ⟨h.nodup, nodup_singleton _, ?_⟩
    rintro id hid _ hnew rfl
    obtain ⟨slot, hslot, rfl⟩ := mem_map.mp hid
    have hfresh : slot.id < r.nextId := h.fresh slot hslot
    have heq : slot.id = r.nextId := mem_singleton.mp hnew
    omega
  · intro slot hslot
    show slot.id < r.nextId + 1
    rcases mem_started.mp hslot with hold | rfl
    · have hfresh : slot.id < r.nextId := h.fresh slot hold
      omega
    · exact Nat.lt_succ_self _
  · show (r.slots ++ [_]).length ≤ limit
    have hbound : r.limit = limit := h.bound
    rw [length_append, length_singleton]
    omega
  · intro key
    show (r.slots ++ [_]).countP _ ≤ _
    have hold : (r.slots.countP fun slot => slot.key = key) ≤ readersPerSource := h.perSource key
    rw [countP_append, countP_singleton]
    by_cases hkey : entry.1 = key
    · subst hkey
      simp only [newSlot, decide_true, if_true]
      omega
    · simpa only [newSlot, hkey, decide_false, Bool.false_eq_true, if_false, Nat.add_zero] using hold
  · intro slot hslot
    rcases mem_started.mp hslot with hold | rfl
    · exact h.plans slot hold
    · exact planOf_version _ _ _ _
  · intro frame hframe
    rcases h.owed frame hframe with hdone | ⟨slot, hslot, hrest⟩ | ⟨other, hother, hkey, htime⟩
    · exact Or.inl hdone
    · exact Or.inr (Or.inl ⟨slot, mem_started.mpr (Or.inl hslot), hrest⟩)
    · rcases mem_append.mp hother with hwaits | hwaits
      · exact Or.inr (Or.inr ⟨other, mem_append_left _ hwaits, hkey, htime⟩)
      · rcases mem_cons.mp hwaits with rfl | hwaits
        · -- the region waits no longer, its reader plans it
          have hnone : ∀ times ∈ (none : Option (List ℤ)), ∀ time ∈ times,
              time ∈ other.2.required := nofun
          exact Or.inr (Or.inl ⟨_, mem_started.mpr (Or.inr rfl), hkey, nofun, (mem_planOf_required hnone).mpr htime⟩)
        · exact Or.inr (Or.inr ⟨other, mem_append_right _ hwaits, hkey, htime⟩)

theorem Sound.started {waiting' : List (K × Region)}
    (h : Sound { r with pending := waiting ++ entry :: waiting' }) (now : ℕ) :
    (r.started now entry (waiting ++ waiting')).Sound := by
  have hmem : ∀ other ∈ waiting ++ waiting', other ∈ waiting ++ entry :: waiting' := by
    intro other hother
    rw [mem_append, mem_cons]
    exact (mem_append.mp hother).imp_right Or.inr
  have hentry : entry ∈ waiting ++ entry :: waiting' := by simp
  have hflying : ∀ slot ∈ (r.started now entry (waiting ++ waiting')).slots,
      slot.state.flying ≠ none → slot ∈ r.slots := by
    intro slot hslot hflies
    rcases mem_started.mp hslot with hold | rfl
    · exact hold
    · exact absurd rfl hflies
  have hdecoding : ∀ slot ∈ (r.started now entry (waiting ++ waiting')).slots, ∀ time version,
      slot.state = .decoding time version → slot ∈ r.slots := by
    intro slot hslot time version hstate
    refine hflying slot hslot ?_
    rw [hstate]
    nofun
  refine ⟨⟨?_, ?_, ?_, ?_, h.base.failures, ?_, h.base.continued⟩, ?_, ?_⟩
  · intro slot hslot
    rcases mem_started.mp hslot with hold | rfl
    · have hplan := h.base.plans slot hold
      exact ⟨hplan.planned, hplan.ahead, hplan.window, hplan.failed⟩
    · have hregion := h.base.pending entry hentry
      have hfits : r.RegionFits (entry.1, entry.2) := ⟨hregion.planned, hregion.ahead, hregion.failed⟩
      have hnone : ∀ times ∈ (none : Option (List ℤ)), ∀ time ∈ times,
          time ∈ entry.2.required := nofun
      have hplan := planFits_planOf hnone hfits
      exact ⟨hplan.planned, hplan.ahead, hplan.window, hplan.failed⟩
  · intro slot hslot
    refine ⟨?_, ?_, ?_⟩
    · intro time version hstate
      exact (h.base.flights slot (hdecoding slot hslot time version hstate)).version time version hstate
    · intro time hstate
      exact (h.base.flights slot (hdecoding slot hslot _ _ hstate)).planned time hstate
    · intro time hstate
      exact (h.base.flights slot (hdecoding slot hslot _ _ hstate)).window time hstate
  · intro one hone two htwo hkey time hflies hflies'
    refine h.base.apart one (hflying one hone ?_) two (hflying two htwo ?_) hkey time hflies hflies'
    · rw [hflies]
      nofun
    · rw [hflies']
      nofun
  · intro other hother
    have hregion := h.base.pending other (hmem other hother)
    exact ⟨hregion.planned, hregion.ahead, hregion.failed⟩
  · intro key hheld
    refine le_trans ?_ (h.base.sole key hheld)
    show (r.slots ++ [_]).countP _ + (waiting ++ waiting').countP _
      ≤ r.slots.countP _ + (waiting ++ entry :: waiting').countP _
    rw [countP_append, countP_singleton, countP_append, countP_append, countP_cons]
    by_cases hkey : entry.1 = key
    · simp only [hkey, decide_true, if_true]
      split <;> omega
    · have hnew : ¬ ((newSlot r.nextId entry.1 (planOf r.version entry.2 (r.windows.get? entry.1) none) now).key = key ∧
          (newSlot r.nextId entry.1
            (planOf r.version entry.2 (r.windows.get? entry.1) none) now).plan.required ≠ []) :=
        fun hcounted => hkey hcounted.1
      rw [if_neg (by simpa using hnew)]
      omega
  · intro frame hframe
    obtain ⟨hrequired, hfree⟩ := h.reserves frame hframe
    refine ⟨hrequired, fun slot hslot hkey hflies => ?_⟩
    refine hfree slot (hflying slot hslot ?_) hkey hflies
    rw [hflies]
    nofun
  · intro slot hslot time version hstate
    exact h.stale slot (hdecoding slot hslot time version hstate) time version hstate

section

variable {regions : List (K × Region)}

/-- The loop starts readers while there is room. -/
theorem startReaders_induct {P : Readers K F E → Prop} {now : ℕ}
    (hstarted : ∀ (r : Readers K F E) entry waiting waiting', P { r with pending := waiting ++ entry :: waiting' } →
      r.slots.length < r.limit → (r.slots.countP fun slot => slot.key = entry.1) < readersPerSource →
      P (r.started now entry (waiting ++ waiting'))) (h : P { r with pending := waiting ++ regions }) (spawn : List (ℕ × K)) :
    P { (r.startReaders now waiting spawn regions).1 with
      pending := (r.startReaders now waiting spawn regions).2.1 } := by
  induction regions generalizing r waiting spawn with
  | nil =>
    rw [append_nil] at h
    exact h
  | cons entry regions ih =>
    rw [Readers.startReaders]
    by_cases hfull : r.slots.length ≥ r.limit ∨ (r.slots.countP fun slot => slot.key = entry.1) ≥ readersPerSource
    · rw [if_pos hfull]
      refine ih ?_ spawn
      rw [append_assoc]
      exact h
    · rw [if_neg hfull]
      rw [not_or, not_le, not_le] at hfull
      exact ih (hstarted r entry waiting regions h hfull.1 hfull.2) _

theorem Kept.startReaders (h : Kept limit { r with pending := waiting ++ regions }) (now : ℕ) (spawn : List (ℕ × K)) :
    Kept limit { (r.startReaders now waiting spawn regions).1 with
      pending := (r.startReaders now waiting spawn regions).2.1 } :=
  startReaders_induct (fun _ _ _ _ h hroom hsource => h.started hroom hsource now) h spawn

theorem Sound.startReaders (h : Sound { r with pending := waiting ++ regions }) (now : ℕ) (spawn : List (ℕ × K)) :
    Sound { (r.startReaders now waiting spawn regions).1 with
      pending := (r.startReaders now waiting spawn regions).2.1 } :=
  startReaders_induct (fun _ _ _ _ h _ _ => h.started now) h spawn

end

/-! ## `assign` -/

/-- Regions of lookahead only need not wait. -/
theorem Kept.filterPending (h : r.Kept limit) :
    Kept limit { r with pending := r.pending.filter fun entry => entry.2.required ≠ [] } := by
  refine ⟨h.nodup, h.fresh, h.bound, h.fits, h.perSource, h.plans, h.failures, ?_⟩
  intro frame hframe
  rcases h.owed frame hframe with hdone | hplanned | ⟨entry, hentry, hkey, htime⟩
  · exact Or.inl hdone
  · exact Or.inr (Or.inl hplanned)
  · refine Or.inr (Or.inr ⟨entry, mem_filter.mpr ⟨hentry, ?_⟩, hkey, htime⟩)
    simpa using ne_nil_of_mem htime

theorem Sound.filterPending (h : r.Sound) :
    Sound { r with pending := r.pending.filter fun entry => entry.2.required ≠ [] } := by
  refine ⟨⟨?_, ?_, h.base.apart, ?_, h.base.failures, ?_, h.base.continued⟩, h.reserves, h.stale⟩
  · intro slot hslot
    have hplan := h.base.plans slot hslot
    exact ⟨hplan.planned, hplan.ahead, hplan.window, hplan.failed⟩
  · intro slot hslot
    have hflight := h.base.flights slot hslot
    exact ⟨hflight.version, hflight.planned, hflight.window⟩
  · intro entry hentry
    have hregion := h.base.pending entry (mem_of_mem_filter hentry)
    exact ⟨hregion.planned, hregion.ahead, hregion.failed⟩
  · intro key hheld
    refine le_trans ?_ (h.base.sole key hheld)
    exact Nat.add_le_add_left filter_sublist.countP_le _

omit [DecidableEq K] in
/-- Slots that ease one by one. -/
theorem lightens_mapSlots {f : Slot K → Slot K} (hf : ∀ slot, slot.Eases (f slot) ∧ r.Stays slot (f slot)) :
    Lightens r { r with slots := r.slots.map f } where
  same := ⟨rfl, rfl, rfl, rfl, rfl, rfl, rfl, rfl, fun _ _ => rfl⟩
  slots := forall₂_map_right_iff.mpr (forall₂_same.mpr fun slot _ => hf slot)
  reserved := fun _ hframe => hframe

omit [DecidableEq K] in
/-- A reader that retires here has an empty plan. -/
theorem lightens_retireObsolete : Lightens r { r with slots := r.slots.map retireObsolete } := by
  refine lightens_mapSlots fun slot => ?_
  unfold retireObsolete
  split
  · split
    · rename_i hobsolete
      refine ⟨⟨rfl, Or.inr rfl, subset_rfl⟩, rfl, fun _ => Or.inr ?_⟩
      simp only [Slot.obsolete, Bool.and_eq_true, List.isEmpty_iff] at hobsolete
      rw [hobsolete.1]
      exact fun _ htime => absurd htime not_mem_nil
    · exact ⟨.refl slot, .refl slot⟩
  · exact ⟨.refl slot, .refl slot⟩

omit [DecidableEq K] in
theorem lightens_cancels : Lightens r
      { r with
        slots := r.slots.map fun slot => if cancels slot then { slot with cancelled := true } else slot } := by
  refine lightens_mapSlots fun slot => ?_
  split
  · exact ⟨⟨rfl, Or.inl rfl, subset_rfl⟩, rfl, fun hleft => Or.inl hleft⟩
  · exact ⟨.refl slot, .refl slot⟩

/-- The end of `assign`, once readers were started. -/
theorem lightens_assign (now : ℕ) :
    Lightens { (r.startReaders now [] [] r.pending).1 with
      pending := (r.startReaders now [] [] r.pending).2.1.filter fun entry =>
        entry.2.required ≠ [] } (r.assign now).2 := by
  unfold assign
  dsimp only
  split
  · exact lightens_cancels
  · exact lightens_retireObsolete.trans lightens_cancels

/-- `assign` loses no required frame. -/
theorem Kept.assign (h : r.Kept limit) (now : ℕ) : (r.assign now).2.Kept limit := by
  have hstart : Kept limit { r with pending := [] ++ r.pending } := h
  exact (hstart.startReaders now []).filterPending.lighten (lightens_assign now)

theorem Sound.assign (h : r.Sound) (now : ℕ) : (r.assign now).2.Sound := by
  have hstart : Sound { r with pending := [] ++ r.pending } := h
  exact (hstart.startReaders now []).filterPending.lighten (lightens_assign now)

end Readers

end Kinewright.Media
