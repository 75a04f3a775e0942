import Kinewright.Media.Assigning

/-!
# A post replaces the plans

`post_within` gives every required frame a reader or a place in the queue again. Decodes of older
versions go on meanwhile: their results are of another version than every plan, and what their
readers keep is planned by the reader itself, or was discarded.
-/

namespace Kinewright.Media

open List KeyedMap

/-- The slot of a reader that is given a plan. -/
def Slot.serve {K : Type} (slot : Slot K) (plan : Plan) : Slot K := { slot with plan }

namespace Readers

variable {K F E : Type} [DecidableEq K] {limit : ℕ} {r r' : Readers K F E}

/-! ## Continued windows -/

/-- The continued times of a held window: its source has required times, and they are below its
end. -/
structure Continues (r : Readers K F E) (regions : List (K × Region)) (key : K) (kept : List ℤ) : Prop where
  held : ∃ window, r.windows.get? key = some window ∧ ∀ time ∈ kept, time < window.2
  required : ∃ entry ∈ regions, entry.1 = key ∧ entry.2.required ≠ []

theorem continues_continued {regions : List (K × Region)} {key : K} {kept : List ℤ}
    (h : (r.continued regions).1.get? key = some kept) : r.Continues regions key kept := by
  simp only [continued, get?_filterMap, Option.bind_eq_some_iff] at h
  obtain ⟨window, hwindow, bound, hbound, hkept⟩ := h
  obtain rfl : r.continuedTimes regions key window.1 bound = kept := by
    split at hkept
    · cases hkept
    · exact Option.some.inj hkept
  obtain ⟨hmax, hown⟩ := Option.filter_eq_some_iff.mp hbound
  have hmem := max?_mem hmax
  rw [all_eq_true] at hown
  have hle : bound ≤ window.2 := (of_decide_eq_true (hown bound hmem)).2
  refine ⟨⟨window, hwindow, ?_⟩, ?_⟩
  · intro time htime
    rw [continuedTimes, mem_reverse] at htime
    obtain ⟨n, hn, rfl⟩ := mem_map.mp (mem_of_mem_filter htime)
    have := mem_range.mp hn
    omega
  · obtain ⟨entry, hentry, htime⟩ := mem_flatMap.mp hmem
    obtain ⟨hin, hkey⟩ := mem_filter.mp hentry
    exact ⟨entry, hin, of_decide_eq_true hkey, ne_nil_of_mem htime⟩

/-- What fits of the continued windows are times of theirs. -/
theorem continues_fitted {regions : List (K × Region)} {detached : List ℕ} {key : K}
    {kept : List ℤ} (h : (r.fitted regions detached).1.get? key = some kept) :
    r.Continues regions key kept := by
  obtain ⟨hfit, -⟩ := get?_filter_eq_some.mp h
  rw [get?_map, Option.map_eq_some_iff] at hfit
  obtain ⟨found, hfound, rfl⟩ := hfit
  obtain ⟨⟨window, hwindow, hbelow⟩, hrequired⟩ := continues_continued hfound
  exact ⟨⟨window, hwindow, fun time htime => hbelow time (mem_of_mem_take htime)⟩, hrequired⟩

/-! ## Joined regions -/

section Joined

variable {continued : KeyedMap K (List ℤ)} {regions : List (K × Region)}

/-- Joining leaves the sources of the regions. -/
theorem map_fst_joinRegions : (joinRegions continued regions).map Prod.fst = regions.map Prod.fst := by
  induction regions generalizing continued with
  | nil => rfl
  | cons entry regions ih =>
    rw [joinRegions]
    split
    · rw [map_cons, map_cons, ih]
    · rw [map_cons, map_cons, ih]

/-- A joined region is one of the plan, with perhaps its source's continued times. -/
structure Joins (continued : KeyedMap K (List ℤ)) (entry : K × Region)
    (joined : K × Region × Option (List ℤ)) : Prop where
  key : joined.1 = entry.1
  lookahead : joined.2.1.lookahead = entry.2.lookahead
  keeps : ∀ time ∈ entry.2.required, time ∈ joined.2.1.required
  required : ∀ time ∈ joined.2.1.required, time ∈ entry.2.required ∨
    ∃ kept, continued.get? entry.1 = some kept ∧ time ∈ kept
  kept : ∀ times ∈ joined.2.2, ∀ time ∈ times, time ∈ joined.2.1.required

theorem get?_of_erase {key other : K} {kept : List ℤ} (h : (continued.erase key).get? other = some kept) :
    other ≠ key ∧ continued.get? other = some kept := by
  rw [get?_erase] at h
  split at h
  · cases h
  · rename_i hne
    exact ⟨hne, h⟩

theorem forall₂_joinRegions : List.Forall₂ (Joins continued) regions (joinRegions continued regions) := by
  induction regions generalizing continued with
  | nil => exact .nil
  | cons entry regions ih =>
    obtain ⟨key, region⟩ := entry
    rw [joinRegions]
    split
    · exact .cons ⟨rfl, rfl, fun _ htime => htime, fun _ htime => Or.inl htime, nofun⟩ ih
    · rename_i kept hkept
      have hkept : continued.get? key = some kept := by
        split at hkept
        · cases hkept
        · exact hkept
      refine .cons ⟨rfl, rfl, ?_, ?_, ?_⟩ (ih.imp fun entry joined hjoins => ?_)
      · exact fun time htime => mem_append_left _ htime
      · intro time htime
        exact (mem_append.mp htime).imp_right fun htime => ⟨kept, hkept, htime⟩
      · intro times htimes time htime
        obtain rfl := Option.some.inj htimes
        exact mem_append_right _ htime
      · refine ⟨hjoins.key, hjoins.lookahead, hjoins.keeps, ?_, hjoins.kept⟩
        intro time htime
        refine (hjoins.required time htime).imp_right ?_
        rintro ⟨times, htimes, hin⟩
        exact ⟨times, (get?_of_erase htimes).2, hin⟩

/-- Continued times of a source with required ones join a region of its. -/
theorem mem_joinRegions {key : K} {kept : List ℤ} (hkept : continued.get? key = some kept)
    (hrequired : ∃ entry ∈ regions, entry.1 = key ∧ entry.2.required ≠ []) :
    ∃ joined ∈ joinRegions continued regions, joined.1 = key ∧ ∀ time ∈ kept, time ∈ joined.2.1.required := by
  induction regions generalizing continued with
  | nil =>
    obtain ⟨entry, hentry, -⟩ := hrequired
    cases hentry
  | cons first regions ih =>
    obtain ⟨source, region⟩ := first
    rw [joinRegions]
    by_cases hfirst : source = key ∧ region.required ≠ []
    · obtain ⟨rfl, hne⟩ := hfirst
      rw [if_neg hne, hkept]
      exact ⟨_, mem_cons_self, rfl, fun time htime => mem_append_right _ htime⟩
    · have hrest : ∃ entry ∈ regions, entry.1 = key ∧ entry.2.required ≠ [] := by
        obtain ⟨entry, hentry, hkey, hne⟩ := hrequired
        rcases mem_cons.mp hentry with rfl | hentry
        · exact absurd ⟨hkey, hne⟩ hfirst
        · exact ⟨entry, hentry, hkey, hne⟩
      split
      · obtain ⟨joined, hjoined, hin⟩ := ih hkept hrest
        exact ⟨joined, mem_cons_of_mem _ hjoined, hin⟩
      · rename_i times htimes
        have hsome : region.required ≠ [] := by
          intro hnil
          rw [if_pos hnil] at htimes
          cases htimes
        have hne : source ≠ key := fun heq => hfirst ⟨heq, hsome⟩
        have herased : (continued.erase source).get? key = some kept := by
          rw [get?_erase, if_neg hne.symm]
          exact hkept
        obtain ⟨joined, hjoined, hin⟩ := ih herased hrest
        exact ⟨joined, mem_cons_of_mem _ hjoined, hin⟩

end Joined

/-! ## Who takes a region -/

omit [DecidableEq K] in
theorem firstMin_mem {α : Type} {le : α → α → Bool} {xs : List α} {x : α} (h : firstMin le xs = some x) : x ∈ xs := by
  induction xs generalizing x with
  | nil => cases h
  | cons y xs ih =>
    rw [firstMin] at h
    split at h
    · obtain rfl := Option.some.inj h
      exact mem_cons_self
    · rename_i z hz
      split at h
      · obtain rfl := Option.some.inj h
        exact mem_cons_self
      · obtain rfl := Option.some.inj h
        exact mem_cons_of_mem _ (ih hz)

omit [DecidableEq K] in
/-- No region and no reader is taken twice. -/
theorem takeKeepers_nodup (taken : List (ℕ × ℕ)) (keepings : List Keeping)
    (h : (taken.map Prod.snd).Nodup) : ((takeKeepers taken keepings).map Prod.snd).Nodup := by
  induction keepings generalizing taken with
  | nil => exact h
  | cons x keepings ih =>
    rw [takeKeepers]
    split
    · exact ih taken h
    · rename_i hfree
      refine ih _ ?_
      rw [map_append, nodup_append]
      refine ⟨h, nodup_singleton _, ?_⟩
      rintro id hid _ hnew rfl
      obtain rfl := mem_singleton.mp hnew
      exact hfree (Or.inr hid)

omit [DecidableEq K] in
theorem mem_takeKeepers {taken : List (ℕ × ℕ)} {keepings : List Keeping} {pair : ℕ × ℕ}
    (h : pair ∈ takeKeepers taken keepings) :
    pair ∈ taken ∨ ∃ x ∈ keepings, pair = (x.index, x.id) := by
  induction keepings generalizing taken with
  | nil => exact Or.inl h
  | cons x keepings ih =>
    rw [takeKeepers] at h
    split at h
    · rcases ih h with hold | ⟨y, hy, heq⟩
      · exact Or.inl hold
      · exact Or.inr ⟨y, mem_cons_of_mem _ hy, heq⟩
    · rcases ih h with hold | ⟨y, hy, heq⟩
      · rcases mem_append.mp hold with hold | hnew
        · exact Or.inl hold
        · exact Or.inr ⟨x, mem_cons_self, mem_singleton.mp hnew⟩
      · exact Or.inr ⟨y, mem_cons_of_mem _ hy, heq⟩

/-- A keeper of a region is a reader of its source that stays. -/
theorem mem_keepers {slots : List (Slot K)} {regions : List (K × Region × Option (List ℤ))}
    {detached : List ℕ} {pair : ℕ × ℕ} (h : pair ∈ keepers slots regions detached) :
    ∃ entry, regions[pair.1]? = some entry ∧
      ∃ slot ∈ slots, slot.id = pair.2 ∧ slot.key = entry.1 ∧ slot.state ≠ .retiring := by
  obtain ⟨x, hx, rfl⟩ := (mem_takeKeepers h).resolve_left not_mem_nil
  have hx := (mem_insertionSort Keeping.le).mp hx
  obtain ⟨⟨⟨key, region, kept⟩, index⟩, hentry, hslots⟩ := mem_flatMap.mp hx
  obtain ⟨slot, hslot, hkeeping⟩ := mem_filterMap.mp hslots
  dsimp only at hkeeping
  split at hkeeping
  · rename_i hkeeps
    obtain rfl := Option.some.inj hkeeping
    refine ⟨(key, region, kept), ?_, slot, hslot, rfl, hkeeps.1, hkeeps.2.1⟩
    exact mem_zipIdx_iff_getElem?.mp hentry
  · cases hkeeping

/-- The body of the loop of `place_regions`: a region goes to a reader, or it waits. -/
def placeRegion (keepers : List (ℕ × ℕ)) (r : Readers K F E) (index : ℕ)
    (entry : K × Region × Option (List ℤ)) : Readers K F E :=
  match freeFor r.slots keepers index entry.1 entry.2.1 with
  | some slot => r.updateSlot slot.id fun slot =>
    slot.serve (planOf r.version entry.2.1 (r.windows.get? entry.1) entry.2.2)
  | none => { r with pending := r.pending ++ [(entry.1, entry.2.1)] }

theorem placeRegions_cons (keepers : List (ℕ × ℕ)) (r : Readers K F E) (index : ℕ)
    (entry : K × Region × Option (List ℤ)) (regions : List (K × Region × Option (List ℤ))) :
    placeRegions keepers r index (entry :: regions)
      = placeRegions keepers (placeRegion keepers r index entry) (index + 1) regions := rfl

/-- A region goes to a reader of its source that stays and has nothing planned yet, or it waits. -/
inductive Placed (r : Readers K F E) (entry : K × Region × Option (List ℤ)) :
    Readers K F E → Prop
  | reader {slot : Slot K} (hslot : slot ∈ r.slots) (hkey : slot.key = entry.1)
      (hstay : slot.state ≠ .retiring) (hfree : slot.obsolete) :
      Placed r entry (r.updateSlot slot.id fun slot =>
        slot.serve (planOf r.version entry.2.1 (r.windows.get? entry.1) entry.2.2))
  | waits : Placed r entry { r with pending := r.pending ++ [(entry.1, entry.2.1)] }

/-- What the loop knows of the keepers: a keeper of a region to come is a reader of its source that
stays, with nothing planned yet. -/
structure KeepersFit (keepers : List (ℕ × ℕ)) (slots : List (Slot K)) (index : ℕ)
    (regions : List (K × Region × Option (List ℤ))) : Prop where
  nodup : (keepers.map Prod.snd).Nodup
  fits : ∀ pair ∈ keepers, ∀ k entry, regions[k]? = some entry → pair.1 = index + k →
    ∀ slot ∈ slots, slot.id = pair.2 → slot.key = entry.1 ∧ slot.state ≠ .retiring
  later : ∀ slot ∈ slots, ¬ slot.obsolete → ∀ pair ∈ keepers, pair.2 = slot.id → pair.1 < index

theorem KeepersFit.start {slots : List (Slot K)} {regions : List (K × Region × Option (List ℤ))}
    (hnodup : (slots.map Slot.id).Nodup) (hfree : ∀ slot ∈ slots, slot.obsolete)
    (detached : List ℕ) : KeepersFit (keepers slots regions detached) slots 0 regions := by
  refine ⟨takeKeepers_nodup [] _ nodup_nil, ?_, ?_⟩
  · intro pair hpair k entry hentry hindex slot hslot hid
    obtain ⟨entry', hentry', slot', hslot', hid', hkey, hstay⟩ := mem_keepers hpair
    obtain rfl := inj_on_of_nodup_map hnodup hslot hslot' (hid.trans hid'.symm)
    rw [hindex, Nat.zero_add, hentry] at hentry'
    obtain rfl := Option.some.inj hentry'
    exact ⟨hkey, hstay⟩
  · intro slot hslot hplanned
    exact absurd (hfree slot hslot) hplanned

variable {keepers : List (ℕ × ℕ)} {index : ℕ} {entry : K × Region × Option (List ℤ)}

/-- The reader that a region goes to. -/
theorem placed_placeRegion {regions : List (K × Region × Option (List ℤ))}
    (h : KeepersFit keepers r.slots index (entry :: regions)) :
    Placed r entry (placeRegion keepers r index entry) ∧
      ∀ slot, freeFor r.slots keepers index entry.1 entry.2.1 = some slot →
        ∀ pair ∈ keepers, pair.2 = slot.id → pair.1 = index := by
  unfold placeRegion
  split
  · rename_i slot hfree
    have hfound := hfree
    unfold freeFor at hfound
    split at hfound
    · -- the region's keeper
      rename_i key id hkeeper
      obtain ⟨hpair, hindex⟩ : (key, id) ∈ keepers ∧ key = index :=
        ⟨mem_of_find?_eq_some hkeeper, by simpa using find?_some hkeeper⟩
      have hslot := mem_of_find?_eq_some hfound
      have hid : slot.id = id := by simpa using find?_some hfound
      obtain ⟨hkey, hstay⟩ := h.fits _ hpair 0 entry rfl hindex slot hslot hid
      refine ⟨.reader hslot hkey hstay ?_, ?_⟩
      · by_contra hplanned
        have hlt := h.later slot hslot hplanned _ hpair hid.symm
        omega
      · intro slot' hslot' pair hpair' hid'
        obtain rfl := Option.some.inj (hfree.symm.trans hslot')
        obtain rfl := inj_on_of_nodup_map h.nodup hpair' hpair (hid'.trans hid)
        exact hindex
    · -- a free reader keeps nothing of any region
      have hslot := mem_filter.mp (firstMin_mem hfound)
      simp only [decide_eq_true_eq] at hslot
      obtain ⟨hslot, hkey, hstay, hother, hfree'⟩ := hslot
      refine ⟨.reader hslot hkey hstay hfree', ?_⟩
      intro slot' hslot' pair hpair hid
      obtain rfl := Option.some.inj (hfree.symm.trans hslot')
      exact absurd (mem_map.mpr ⟨pair, hpair, hid⟩) hother
  · rename_i hnone
    refine ⟨.waits, fun slot hslot => ?_⟩
    rw [hnone] at hslot
    cases hslot

/-- A region placed leaves ids, sources and states, and every slot but one. -/
theorem mem_placeRegion (hnodup : (r.slots.map Slot.id).Nodup) {slot' : Slot K}
    (hslot' : slot' ∈ (placeRegion keepers r index entry).slots)
    (hfree : ∀ slot, freeFor r.slots keepers index entry.1 entry.2.1 = some slot → slot ∈ r.slots) :
    slot' ∈ r.slots ∨ ∃ slot ∈ r.slots, freeFor r.slots keepers index entry.1 entry.2.1 = some slot ∧
        slot'.id = slot.id ∧ slot'.key = slot.key ∧ slot'.state = slot.state := by
  unfold placeRegion at hslot'
  split at hslot'
  · rename_i slot hfound
    have hslot := slot?_eq_some_of_mem hnodup (hfree slot hfound)
    rcases (mem_updateSlots hnodup hslot).mp hslot' with rfl | ⟨hold, -⟩
    · exact Or.inr ⟨slot, hfree slot hfound, hfound, rfl, rfl, rfl⟩
    · exact Or.inl hold
  · exact Or.inl hslot'

variable {slot : Slot K}

theorem freeFor_mem {key : K} {region : Region} (h : freeFor r.slots keepers index key region = some slot) :
    slot ∈ r.slots := by
  unfold freeFor at h
  split at h
  · exact mem_of_find?_eq_some h
  · exact mem_of_mem_filter (firstMin_mem h)

/-- The keepers fit the regions that are left. -/
theorem KeepersFit.place {regions : List (K × Region × Option (List ℤ))}
    (h : KeepersFit keepers r.slots index (entry :: regions))
    (hnodup : (r.slots.map Slot.id).Nodup) :
    KeepersFit keepers (placeRegion keepers r index entry).slots (index + 1) regions := by
  have hchosen := (placed_placeRegion h).2
  refine ⟨h.nodup, ?_, ?_⟩
  · intro pair hpair k other hother hindex slot' hslot' hid
    have hnext : (entry :: regions)[k + 1]? = some other := hother
    have hindex' : pair.1 = index + (k + 1) := by omega
    rcases mem_placeRegion hnodup hslot' fun _ => freeFor_mem with hold | ⟨slot, hslot, -, hid', hkey, hstate⟩
    · exact h.fits pair hpair (k + 1) other hnext hindex' slot' hold hid
    · rw [hkey, hstate]
      exact h.fits pair hpair (k + 1) other hnext hindex' slot hslot (hid'.symm.trans hid)
  · intro slot' hslot' hplanned pair hpair hid
    rcases mem_placeRegion hnodup hslot' fun _ => freeFor_mem with hold | ⟨slot, -, hfound, hid', -, -⟩
    · exact Nat.lt_succ_of_lt (h.later slot' hold hplanned pair hpair hid)
    · have hindex := hchosen slot hfound pair hpair (hid.trans hid')
      omega

omit [DecidableEq K] in
theorem map_id_serve (slots : List (Slot K)) (id : ℕ) (plan : Plan) :
    (updateSlots slots id fun slot => slot.serve plan).map Slot.id = slots.map Slot.id :=
  map_eq_of_forall₂ (forall₂_updateSlots (R := fun slot slot' => slot'.id = slot.id)
    (fun _ => rfl) fun _ _ => rfl) fun _ _ hid => hid

/-- Whatever every placed region keeps, the loop keeps. -/
theorem placeRegions_induct {P : Readers K F E → List (K × Region × Option (List ℤ)) → Prop}
    (hstep : ∀ r entry regions r', (r.slots.map Slot.id).Nodup → P r (entry :: regions) →
      Placed r entry r' → P r' regions) {regions : List (K × Region × Option (List ℤ))}
    (hnodup : (r.slots.map Slot.id).Nodup) (hkeepers : KeepersFit keepers r.slots index regions)
    (h : P r regions) : P (placeRegions keepers r index regions) [] := by
  induction regions generalizing r index with
  | nil => exact h
  | cons entry regions ih =>
    rw [placeRegions_cons]
    refine ih ?_ (hkeepers.place hnodup) (hstep r entry regions _ hnodup h (placed_placeRegion hkeepers).1)
    unfold placeRegion
    split
    · show ((updateSlots r.slots _ _).map Slot.id).Nodup
      rw [map_id_serve]
      exact hnodup
    · exact hnodup

/-! ## Every joined region is placed -/

/-- The loop's invariant for H-3: what is required of the regions placed so far is owed. -/
structure Placing (limit : ℕ) (joined : List (K × Region × Option (List ℤ)))
    (r : Readers K F E) (regions : List (K × Region × Option (List ℤ))) : Prop where
  kept : Kept limit { r with required := ∅ }
  rest : ∀ entry ∈ regions, entry ∈ joined
  placed : ∀ entry ∈ joined, entry ∈ regions ∨ ∀ time ∈ entry.2.1.required, r.Owed (entry.1, time)

/-- Another set of required frames, each of them owed. -/
theorem Kept.withRequired {required required' : Finset (K × ℤ)} (h : Kept limit { r with required := required })
    (howed : ∀ frame ∈ required', r.Owed frame) : Kept limit { r with required := required' } :=
  ⟨h.nodup, h.fresh, h.bound, h.fits, h.perSource, h.plans, h.failures, howed⟩

theorem Placing.place {joined : List (K × Region × Option (List ℤ))}
    (hjoined : ∀ entry ∈ joined, ∀ times ∈ entry.2.2, ∀ time ∈ times, time ∈ entry.2.1.required)
    {regions : List (K × Region × Option (List ℤ))} (hnodup : (r.slots.map Slot.id).Nodup)
    (h : Placing limit joined r (entry :: regions)) (hplaced : Placed r entry r') :
    Placing limit joined r' regions := by
  have hentry := h.rest entry mem_cons_self
  refine ⟨?_, fun other hother => h.rest other (mem_cons_of_mem _ hother), ?_⟩
  · cases hplaced with
    | reader hslot hkey hstay hfree =>
      refine h.kept.carry ⟨rfl, rfl, rfl, subset_rfl, fun _ _ => id, fun _ _ => Or.inl, ?_,
        forall₂_same.mpr fun _ _ => ⟨rfl, fun _ htime _ => htime⟩⟩
      refine forall₂_updateSlots (fun slot => .refl _ slot) fun slot hslot => ?_
      refine ⟨rfl, rfl, ?_, fun _ _ _ hrequired => absurd hrequired (Finset.notMem_empty _)⟩
      rw [h.kept.plans slot (slot?_mem (r := r) hslot)]
      exact planOf_version _ _ _ _
    | waits =>
      exact ⟨h.kept.nodup, h.kept.fresh, h.kept.bound, h.kept.fits, h.kept.perSource,
        h.kept.plans, h.kept.failures, fun _ hframe => absurd hframe (Finset.notMem_empty _)⟩
  · intro other hother
    cases hplaced with
    | @reader slot hslot hkey hstay hfree =>
      have hfound := slot?_eq_some_of_mem hnodup hslot
      have hnew : ∀ time ∈ entry.2.1.required, Owed (r.updateSlot slot.id fun slot =>
          slot.serve (planOf r.version entry.2.1 (r.windows.get? entry.1) entry.2.2))
          (entry.1, time) := by
        intro time htime
        refine Or.inr (Or.inl ⟨_, (mem_updateSlots hnodup hfound).mpr (Or.inl rfl), hkey, hstay, ?_⟩)
        exact (mem_planOf_required (hjoined entry hentry)).mpr htime
      rcases h.placed other hother with hwaits | howed
      · rcases mem_cons.mp hwaits with rfl | hwaits
        · exact Or.inr hnew
        · exact Or.inl hwaits
      · refine Or.inr fun time htime => ?_
        rcases howed time htime with hdone | ⟨owner, howner, hrest⟩ | hwaiting
        · exact Or.inl hdone
        · -- the owner has a plan, so it is not the reader that had none
          refine Or.inr (Or.inl ⟨owner, (mem_updateSlots hnodup hfound).mpr (Or.inr ⟨howner, fun hid => ?_⟩), hrest⟩)
          obtain rfl := inj_on_of_nodup_map hnodup howner hslot hid
          simp only [Slot.obsolete, Bool.and_eq_true, List.isEmpty_iff] at hfree
          have hin := hrest.2.2
          rw [hfree.1] at hin
          cases hin
        · exact Or.inr (Or.inr hwaiting)
    | waits =>
      rcases h.placed other hother with hwaits | howed
      · rcases mem_cons.mp hwaits with rfl | hwaits
        · refine Or.inr fun time htime => Or.inr (Or.inr ⟨(other.1, other.2.1), ?_, rfl, htime⟩)
          exact mem_append_right _ (mem_singleton_self _)
        · exact Or.inl hwaits
      · refine Or.inr fun time htime => ?_
        rcases howed time htime with hdone | hplanned | ⟨waiting, hwaiting, hrest⟩
        · exact Or.inl hdone
        · exact Or.inr (Or.inl hplanned)
        · exact Or.inr (Or.inr ⟨waiting, mem_append_left _ hwaiting, hrest⟩)

/-- The loop changes slots and waiting regions only. -/
theorem placeRegions_eq (keepers : List (ℕ × ℕ)) (r : Readers K F E) (index : ℕ)
    (regions : List (K × Region × Option (List ℤ))) :
    placeRegions keepers r index regions = { r with
          slots := (placeRegions keepers r index regions).slots
          pending := (placeRegions keepers r index regions).pending } := by
  induction regions generalizing r index with
  | nil => rfl
  | cons entry regions ih =>
    rw [placeRegions_cons]
    have hentry : placeRegion keepers r index entry
        = { r with
            slots := (placeRegion keepers r index entry).slots
            pending := (placeRegion keepers r index entry).pending } := by
      unfold placeRegion
      split <;> rfl
    have hrest := ih (placeRegion keepers r index entry) (index + 1)
    generalize placeRegions keepers (placeRegion keepers r index entry) (index + 1) regions = placed at hrest ⊢
    rw [hentry] at hrest
    exact hrest

/-! ## Passes over the slots -/

section Pass

variable {σ : Type} {f : σ → Slot K → σ × Slot K}

omit [DecidableEq K] in
theorem forall₂_threadSlots {R : Slot K → Slot K → Prop} (hf : ∀ s slot, R slot (f s slot).2)
    (s : σ) (slots : List (Slot K)) : List.Forall₂ R slots (threadSlots f s slots).2 := by
  induction slots generalizing s with
  | nil => exact .nil
  | cons slot slots ih => exact .cons (hf s slot) (ih _)

omit [DecidableEq K] in
theorem threadSlots_invariant {P : σ → Prop} (hf : ∀ s slot, P s → P (f s slot).1) {s : σ}
    (hs : P s) (slots : List (Slot K)) : P (threadSlots f s slots).1 := by
  induction slots generalizing s with
  | nil => exact hs
  | cons slot slots ih => exact ih (hf s slot hs)

end Pass

variable {frame : K × ℤ}

omit [DecidableEq K] in
theorem contains_takeReserved {reserved : KeyedMap (K × ℤ) ℕ} {p : K × ℤ → ℕ → Bool}
    (h : (takeReserved reserved p).1.contains frame) :
    reserved.contains frame ∧ ∃ bytes, reserved.get? frame = some bytes ∧ ¬ p frame bytes := by
  obtain ⟨bytes, hbytes⟩ := KeyedMap.contains_iff.mp h
  obtain ⟨hold, hkept⟩ := get?_filter_eq_some.mp hbytes
  exact ⟨KeyedMap.contains_iff.mpr ⟨bytes, hold⟩, bytes, hold, by simpa using hkept⟩

theorem eases_discardKept (reserved : KeyedMap (K × ℤ) ℕ) (slot : Slot K) (gone : Finset ℤ)
    (range : ℤ × ℤ) : slot.Eases (discardKept reserved slot gone range).2 ∧
      (discardKept reserved slot gone range).2.state = slot.state :=
  ⟨⟨rfl, Or.inl rfl, Finset.sdiff_subset⟩, rfl⟩

theorem contains_discardKept {reserved : KeyedMap (K × ℤ) ℕ} {gone : Finset ℤ} (range : ℤ × ℤ)
    (h : (discardKept reserved slot gone range).1.contains frame) : reserved.contains frame :=
  (contains_takeReserved h).1

omit [DecidableEq K] in
/-- Slots that ease where they are. -/
theorem stays_of_eases {slot' : Slot K} (h : slot.Eases slot' ∧ slot'.state = slot.state) :
    slot.Eases slot' ∧ r.Stays slot slot' :=
  ⟨h.1, h.1.profile, fun hleft => Or.inl (h.2 ▸ hleft)⟩

theorem lightens_discardOutside (keep : KeyedMap K (ℤ × ℤ)) :
    Lightens r (r.discardOutside keep) where
  same := ⟨rfl, rfl, rfl, rfl, rfl, rfl, rfl, rfl, fun _ _ => rfl⟩
  slots := by
    refine (forall₂_threadSlots (R := fun slot slot' => slot.Eases slot' ∧
      slot'.state = slot.state) (fun reserved slot => ?_) _ _).imp fun _ _ => stays_of_eases
    unfold discardOutsideSlot
    split
    · exact ⟨.refl slot, rfl⟩
    · split
      · exact ⟨.refl slot, rfl⟩
      · exact eases_discardKept _ _ _ _
  reserved := by
    refine threadSlots_invariant (P := fun reserved : KeyedMap (K × ℤ) ℕ => ∀ frame,
      reserved.contains frame → r.reserved.contains frame) ?_ (fun _ hframe => hframe) r.slots
    intro reserved slot hold frame hframe
    refine hold frame ?_
    unfold discardOutsideSlot at hframe
    split at hframe
    · exact hframe
    · split at hframe
      · exact hframe
      · exact contains_discardKept _ hframe

theorem lightens_handOff (detached : List ℕ) : Lightens r (r.handOff detached) where
  same := ⟨rfl, rfl, rfl, rfl, rfl, rfl, rfl, rfl, fun _ _ => rfl⟩
  slots := by
    refine (forall₂_threadSlots (R := fun slot slot' => slot.Eases slot' ∧
      slot'.state = slot.state) (fun s slot => ?_) _ _).imp fun _ _ => stays_of_eases
    unfold handOffSlot
    split
    · exact ⟨.refl slot, rfl⟩
    · exact eases_discardKept _ _ _ _
  reserved := by
    refine threadSlots_invariant (P := fun s : KeyedMap (K × ℤ) ℕ × Finset (K × ℤ) =>
      ∀ frame, s.1.contains frame → r.reserved.contains frame) ?_ (fun _ hframe => hframe) r.slots
    intro s slot hold frame hframe
    refine hold frame ?_
    unfold handOffSlot at hframe
    split at hframe
    · exact hframe
    · exact contains_discardKept (ownRange slot) hframe

omit [DecidableEq K] in
theorem lightens_wantFor (regions : ℕ) : Lightens r (r.wantFor regions) :=
  lightens_same ⟨rfl, rfl, rfl, rfl, rfl, rfl, rfl, rfl, fun _ _ => rfl⟩ rfl fun _ hframe => hframe

/-- Free readers and the queue take every region of a plan. -/
theorem Kept.placePlan {regions : List (K × Region)} {continued : KeyedMap K (List ℤ)}
    {detached : List ℕ} (h : Kept limit { r with required := ∅ })
    (hfree : ∀ slot ∈ r.slots, slot.obsolete)
    (hrequired : ∀ frame ∈ r.required, ∃ entry ∈ joinRegions continued regions,
      entry.1 = frame.1 ∧ frame.2 ∈ entry.2.1.required) :
    (r.placePlan regions continued detached).Kept limit := by
  have hjoined : ∀ entry ∈ joinRegions continued regions, ∀ times ∈ entry.2.2, ∀ time ∈ times,
      time ∈ entry.2.1.required := by
    intro entry hentry
    obtain ⟨_, -, hjoins⟩ := mem_right_of_forall₂ forall₂_joinRegions hentry
    exact hjoins.kept
  have hplaced := placeRegions_induct (r := r) (P := Placing limit (joinRegions continued regions))
    (fun _ _ _ _ hnodup hplacing hplaced => hplacing.place hjoined hnodup hplaced) h.nodup
    (.start h.nodup hfree detached) ⟨h, fun _ => id, fun _ hentry => Or.inl hentry⟩
  have heq := placeRegions_eq (keepers r.slots (joinRegions continued regions) detached) r 0
    (joinRegions continued regions)
  unfold Readers.placePlan
  dsimp only
  generalize placeRegions (keepers r.slots (joinRegions continued regions) detached) r 0
    (joinRegions continued regions) = placed at hplaced heq ⊢
  have hsame : placed.required = r.required := by rw [heq]
  refine Kept.lighten ?_ (lightens_handOff detached)
  refine hplaced.kept.withRequired fun frame hframe => ?_
  rw [hsame] at hframe
  obtain ⟨entry, hentry, hkey, htime⟩ := hrequired frame hframe
  have howed := (hplaced.placed entry hentry).resolve_left not_mem_nil frame.2 htime
  rwa [hkey] at howed

/-! ## Before the regions are placed -/

/-- The continued windows of a post, as far as they fit. -/
def continuedFor (r : Readers K F E) (regions : List (K × Region)) (sizes : KeyedMap K ℕ)
    (generated : ℕ) (detached : List ℕ) : KeyedMap K (List ℤ) :=
  ((r.announce regions sizes generated).fitted regions detached).1

/-- The state of a post before its regions are placed: no reader has a plan. -/
def readied (r : Readers K F E) (regions : List (K × Region)) (sizes : KeyedMap K ℕ)
    (generated : ℕ) (detached : List ℕ) : Readers K F E :=
  ((r.announce regions sizes generated).settle (r.continuedFor regions sizes generated detached)
    ((r.announce regions sizes generated).fitted regions detached).2).trimRings.clearPlans

variable {regions : List (K × Region)} {sizes : KeyedMap K ℕ} {generated : ℕ}
  {detached : List ℕ}

theorem postWithin_eq (now : ℕ) : (r.postWithin regions sizes generated detached now).2
      = ((((r.readied regions sizes generated detached).placePlan regions
          (r.continuedFor regions sizes generated detached) detached).wantFor regions.length).assign now).2 := rfl

/-- What a post requires: what its regions require, and the continued times that fit. -/
theorem mem_readied_required : frame ∈ (r.readied regions sizes generated detached).required ↔
      (∃ entry ∈ regions, entry.1 = frame.1 ∧ frame.2 ∈ entry.2.required) ∨
        ∃ kept, (r.continuedFor regions sizes generated detached).get? frame.1 = some kept ∧ frame.2 ∈ kept := by
  have heq : (r.readied regions sizes generated detached).required
      = (regions.flatMap fun entry => entry.2.required.map fun time => (entry.1, time)).toFinset ∪
        (r.continuedFor regions sizes generated detached).keys.biUnion fun key =>
          (((r.continuedFor regions sizes generated detached).get? key).getD []).toFinset.image
            fun time => (key, time) := rfl
  rw [heq, Finset.mem_union, mem_toFinset, mem_flatMap, Finset.mem_biUnion]
  refine or_congr ⟨?_, ?_⟩ ⟨?_, ?_⟩
  · rintro ⟨entry, hentry, hframe⟩
    obtain ⟨time, htime, rfl⟩ := mem_map.mp hframe
    exact ⟨entry, hentry, rfl, htime⟩
  · rintro ⟨entry, hentry, hkey, htime⟩
    exact ⟨entry, hentry, mem_map.mpr ⟨frame.2, htime, Prod.ext hkey rfl⟩⟩
  · rintro ⟨key, hkey, hframe⟩
    obtain ⟨time, htime, rfl⟩ := Finset.mem_image.mp hframe
    obtain ⟨kept, hkept⟩ := Option.isSome_iff_exists.mp ((KeyedMap.mem_keys _ _).mp hkey)
    rw [hkept] at htime
    exact ⟨kept, hkept, mem_toFinset.mp htime⟩
  · rintro ⟨kept, hkept, htime⟩
    refine ⟨frame.1, (KeyedMap.mem_keys _ _).mpr (by rw [hkept]; rfl), ?_⟩
    rw [hkept]
    exact Finset.mem_image.mpr ⟨frame.2, mem_toFinset.mpr htime, rfl⟩

/-- A slot whose plan was taken away. -/
structure Cleared (version : ℕ) (slot slot' : Slot K) : Prop where
  id : slot'.id = slot.id
  key : slot'.key = slot.key
  flight : slot'.state = slot.state ∨ slot'.state.flying = none
  retained : slot'.retained ⊆ slot.retained
  plan : slot'.plan = emptyPlan version

theorem forall₂_readied : List.Forall₂ (Cleared (r.version + 1)) r.slots
    (r.readied regions sizes generated detached).slots := by
  have heases := (lightens_discardOutside (r := (r.announce regions sizes generated).joinContinuation
    (r.continuedFor regions sizes generated detached))
    ((r.announce regions sizes generated).fitted regions detached).2).slots
  show List.Forall₂ _ r.slots (List.map _ _)
  rw [forall₂_map_right_iff]
  refine heases.imp fun slot slot' hpair => ?_
  exact ⟨hpair.1.id, hpair.1.key, hpair.1.flight, hpair.1.retained, rfl⟩

/-- What is still reserved was, and is required. -/
theorem contains_readied (h : (r.readied regions sizes generated detached).reserved.contains frame) :
    r.reserved.contains frame ∧ frame ∈ (r.readied regions sizes generated detached).required := by
  set r₁ := (r.announce regions sizes generated).joinContinuation
    (r.continuedFor regions sizes generated detached) with hr₁
  have hdiscard := lightens_discardOutside (r := r₁) ((r.announce regions sizes generated).fitted regions detached).2
  -- the charges are lowered, raised ones return, and what is not required returns
  have hlowered : (takeReserved (takeReserved (r₁.discardOutside
      ((r.announce regions sizes generated).fitted regions detached).2).reserved fun frame _ =>
        frame ∉ r₁.required).1 fun frame bytes => bytes < Readers.frameBytes
          ((r₁.discardOutside ((r.announce regions sizes generated).fitted regions
            detached).2).returnUnrequired).dropWindows frame.1 frame.2).1.contains frame := by
    have hmapped : ((takeReserved _ _).1.map _).contains frame := h
    rw [KeyedMap.contains, get?_map, Option.isSome_map] at hmapped
    exact hmapped
  obtain ⟨hraised, -⟩ := contains_takeReserved hlowered
  obtain ⟨hold, bytes, -, hrequired⟩ := contains_takeReserved hraised
  have hrequired' : frame ∈ r₁.required := by simpa using hrequired
  exact ⟨hdiscard.reserved frame hold, hrequired'⟩

/-! ## No required frame is lost -/

theorem Kept.readied (h : r.Kept limit) :
    Kept limit { r.readied regions sizes generated detached with required := ∅ } := by
  have hslots := @forall₂_readied K F E _ r regions sizes generated detached
  have hids := map_eq_of_forall₂ hslots fun _ _ hcleared => hcleared.id
  refine ⟨?_, ?_, h.bound, ?_, ?_, ?_, nofun, fun _ hframe => absurd hframe (Finset.notMem_empty _)⟩
  · show ((r.readied regions sizes generated detached).slots.map Slot.id).Nodup
    rw [hids]
    exact h.nodup
  · intro slot' hslot'
    obtain ⟨slot, hslot, hcleared⟩ := mem_right_of_forall₂ hslots hslot'
    rw [hcleared.id]
    exact h.fresh slot hslot
  · exact hslots.length_eq ▸ h.fits
  · intro key
    refine le_trans (countP_le_of_forall₂ hslots ?_) (h.perSource key)
    intro slot slot' hcleared hkey
    rwa [hcleared.key] at hkey
  · intro slot' hslot'
    obtain ⟨slot, -, hcleared⟩ := mem_right_of_forall₂ hslots hslot'
    rw [hcleared.plan]
    rfl

/-- In the state before the regions are placed, every reader is free. -/
theorem obsolete_readied (hslot : slot ∈ (r.readied regions sizes generated detached).slots) :
    slot.obsolete := by
  obtain ⟨old, -, hcleared⟩ := mem_right_of_forall₂ forall₂_readied hslot
  rw [Slot.obsolete, hcleared.plan]
  rfl

/-- Every required frame of a post is in a joined region. -/
theorem mem_joined_of_required (h : frame ∈ (r.readied regions sizes generated detached).required) :
    ∃ entry ∈ joinRegions (r.continuedFor regions sizes generated detached) regions,
      entry.1 = frame.1 ∧ frame.2 ∈ entry.2.1.required := by
  rcases mem_readied_required.mp h with ⟨entry, hentry, hkey, htime⟩ | ⟨kept, hkept, htime⟩
  · obtain ⟨joined, hjoined, hjoins⟩ := mem_left_of_forall₂ forall₂_joinRegions hentry
    exact ⟨joined, hjoined, hjoins.key.trans hkey, hjoins.keeps _ htime⟩
  · obtain ⟨joined, hjoined, hkey, hin⟩ := mem_joinRegions hkept (continues_fitted hkept).required
    exact ⟨joined, hjoined, hkey, hin _ htime⟩

/-- A post loses no frame of its required set. -/
theorem Kept.postWithin (h : r.Kept limit) (regions : List (K × Region)) (sizes : KeyedMap K ℕ)
    (generated : ℕ) (detached : List ℕ) (now : ℕ) :
    (r.postWithin regions sizes generated detached now).2.Kept limit := by
  rw [postWithin_eq]
  refine Kept.assign (Kept.lighten ?_ (lightens_wantFor _)) now
  exact Kept.placePlan h.readied (fun _ hslot => obsolete_readied hslot) (fun _ hframe => mem_joined_of_required hframe)

end Readers

end Kinewright.Media
