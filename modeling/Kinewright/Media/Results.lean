import Kinewright.Media.Flights

/-!
# Results keep the plans sound

A frame or a failure that a reader delivers resolves what it alone was decoding. A refill's report
takes times out of the required set, out of every plan and out of the reservations at once: they are
times of one plan that have not failed and that nobody else is to decode.
-/

namespace Kinewright.Media

open KeyedMap
open List hiding contains_iff

namespace Readers

variable {K F E : Type} [DecidableEq K] {limit : ℕ} {r r' : Readers K F E}

/-- More results, with the failures among them of the current version, lose no required frame. -/
theorem Kept.results (h : r.Kept limit) (hversion : r'.version = r.version)
    (hlimit : r'.limit = r.limit) (hnextId : r'.nextId = r.nextId)
    (hrequired : r'.required = r.required) (hslots : r'.slots = r.slots)
    (hpending : r'.pending = r.pending)
    (hresolved : ∀ frame ∈ r.required, r.resolved frame.1 frame.2 → r'.resolved frame.1 frame.2)
    (hfailures : ∀ frame failure, r'.failures.get? frame = some failure →
      r.failures.get? frame = some failure ∨ failure.1 = r.version) : r'.Kept limit := by
  refine h.carry ⟨hversion, hlimit, hnextId, hrequired ▸ subset_rfl, ?_, hfailures, ?_, ?_⟩
  · rw [hrequired]
    exact hresolved
  · rw [hslots]
    exact forall₂_same.mpr fun slot _ => .refl _ slot
  · rw [hpending]
    exact forall₂_same.mpr fun entry _ => ⟨rfl, fun _ htime _ => htime⟩

/-! ## More results -/

/-- A required frame fails, while no reader of a held window's source that
plans it flies, and the end of its backward window has a result. -/
structure Fails (r r' : Readers K F E) (frame : K × ℤ) : Prop where
  required : frame ∈ r.required
  slots : ∀ slot ∈ r.slots, r.windows.contains slot.key → slot.key = frame.1 →
    frame.2 ∈ slot.plan.required → slot.state.flying = none ∧
      ∀ window ∈ slot.plan.window, frame.2 = window.2 ∨ r'.resolved slot.key window.2
  pending : ∀ entry ∈ r.pending, r.windows.contains entry.1 → entry.1 = frame.1 → frame.2 ∉ entry.2.required

/-- The state afterwards has the same plan and more results, none for a required time that a reader
still decodes for its plan. -/
structure Resolves (r r' : Readers K F E) : Prop where
  version : r'.version = r.version
  required : r'.required = r.required
  continuation : r'.continuation = r.continuation
  pending : r'.pending = r.pending
  windows : r'.windows = r.windows
  slots : r'.slots = r.slots
  mono : ∀ key time, r.resolved key time → r'.resolved key time
  flights : ∀ slot ∈ r.slots, r.windows.contains slot.key → ∀ time ∈ slot.plan.required,
    slot.state.flying = some time → r'.resolved slot.key time → r.resolved slot.key time
  failures : ∀ frame, r'.failures.contains frame → r.failures.contains frame ∨ r.Fails r' frame

variable {slot : Slot K} {time : ℤ}

omit [DecidableEq K] in
/-- A failure of a planned time of a held window's source, old or new. -/
theorem Resolves.failed (h : Resolves r r') (hslot : slot ∈ r.slots)
    (hheld : r.windows.contains slot.key) (htime : time ∈ slot.plan.required)
    (hfailed : r'.failures.contains (slot.key, time)) :
    r.failures.contains (slot.key, time) ∨ slot.state.flying = none ∧
      ∀ window ∈ slot.plan.window, time = window.2 ∨ r'.resolved slot.key window.2 := by
  exact (h.failures _ hfailed).imp_right fun hnew => hnew.slots slot hslot hheld rfl htime

theorem Consistent.resolve (h : r.Consistent) (hresolves : Resolves r r') : r'.Consistent := by
  refine ⟨?_, ?_, hresolves.slots ▸ h.apart, ?_, ?_, ?_, ?_⟩
  · rw [hresolves.slots]
    intro slot hslot
    have hplan := h.plans slot hslot
    refine ⟨?_, ?_, ?_, ?_⟩
    · rw [hresolves.required]
      exact hplan.planned
    · rw [hresolves.required]
      exact hplan.ahead
    · rw [hresolves.windows]
      exact hplan.window
    · intro window hwindow time htime hne hfailed
      rcases hresolves.failed hslot (hplan.held hwindow) htime hfailed with hold | ⟨-, hnew⟩
      · exact hresolves.mono _ _ (hplan.failed window hwindow time htime hne hold)
      · exact (hnew window hwindow).resolve_left hne
  · rw [hresolves.slots]
    intro slot hslot
    have hplan := h.plans slot hslot
    have hflight := h.flights slot hslot
    refine ⟨?_, hflight.planned, ?_⟩
    · rw [hresolves.version]
      exact hflight.version
    · intro time hstate window hwindow
      rcases hflight.window time hstate window hwindow with ⟨rfl, hopen⟩ | ⟨hne, hdone⟩
      · refine Or.inl ⟨rfl, fun hdone => hopen ?_⟩
        exact hresolves.flights slot hslot (hplan.held hwindow) _ (hplan.end_mem hwindow)
          (flying_iff.mpr ⟨_, hstate⟩) hdone
      · exact Or.inr ⟨hne, hresolves.mono _ _ hdone⟩
  · rw [hresolves.pending]
    intro entry hentry
    have hregion := h.pending entry hentry
    refine ⟨?_, ?_, ?_⟩
    · rw [hresolves.required]
      exact hregion.planned
    · rw [hresolves.required]
      exact hregion.ahead
    · rw [hresolves.windows]
      intro hheld time htime hfailed
      rcases hresolves.failures _ hfailed with hold | hnew
      · exact hregion.failed hheld time htime hold
      · exact hnew.pending entry hentry hheld rfl htime
  · rw [hresolves.required]
    intro frame hfailed
    rcases hresolves.failures frame hfailed with hold | hnew
    · exact h.failures frame hold
    · exact hnew.required
  · rw [hresolves.windows]
    intro key hheld
    rw [owners_eq (congrArg (List.map Slot.profile) hresolves.slots) hresolves.pending]
    exact h.sole key hheld
  · rw [hresolves.continuation, hresolves.windows]
    exact h.continued

theorem Consistent.staleResolve (h : r.Consistent) (hresolves : Resolves r r')
    (hslot : slot ∈ r.slots) (hstale : r.StaleFits slot) : r'.StaleFits slot := by
  intro time version hstate hne kept hkept hcontinued
  rw [hresolves.continuation] at hcontinued
  obtain ⟨hplanned, hfresh⟩ := hstale time version hstate hne kept hkept hcontinued
  refine ⟨hplanned, fun hfailed => ?_⟩
  obtain ⟨window, hwindow, -⟩ := h.continued _ hcontinued
  have hheld : r.windows.contains slot.key := contains_iff.mpr ⟨window, hwindow⟩
  rcases hresolves.failed hslot hheld hplanned hfailed with hold | ⟨hnone, -⟩
  · exact hfresh hold
  · rw [hstate] at hnone
    cases hnone

theorem Sound.resolve (h : r.Sound) (hresolves : Resolves r r')
    (hreserved : ∀ frame, r'.reserved.contains frame → r.reserved.contains frame) :
    r'.Sound := by
  refine ⟨h.base.resolve hresolves, ?_, ?_⟩
  · refine h.reserves.ease hresolves.required ?_ hreserved
    rw [hresolves.slots]
    exact fun slot hslot => ⟨slot, hslot, .refl slot⟩
  · rw [hresolves.slots]
    exact fun slot hslot => h.base.staleResolve hresolves hslot (h.stale slot hslot)

/-! ## Frames -/

omit [DecidableEq K] in
theorem contains_insert [DecidableEq K] {α : Type} {m : KeyedMap (K × ℤ) α} {frame other : K × ℤ} {a : α} :
    (m.insert frame a).contains other ↔ other = frame ∨ m.contains other := by
  rw [KeyedMap.contains, get?_insert]
  by_cases heq : other = frame
  · simp [heq]
  · simp [heq, KeyedMap.contains]

theorem Kept.keepFrame (h : r.Kept limit) (key : K) (time : ℤ) (frame : F) :
    (r.keepFrame key time frame).2.Kept limit := by
  unfold Readers.keepFrame
  split
  · refine h.results rfl rfl rfl rfl rfl rfl ?_ fun _ _ => Or.inl
    intro other _ hdone
    rw [Readers.resolved, Bool.or_eq_true] at hdone ⊢
    exact hdone.imp_left fun hring => contains_insert.mpr (Or.inr hring)
  · exact h

/-- A frame that nobody decodes any more reaches the ring. -/
theorem Sound.keepFrame (h : r.Sound) {key : K}
    (hfree : ∀ slot ∈ r.slots, slot.key = key → slot.state.flying ≠ some time) (frame : F) :
    (r.keepFrame key time frame).2.Sound := by
  unfold Readers.keepFrame
  split
  · refine h.resolve ⟨rfl, rfl, rfl, rfl, rfl, rfl, ?_, ?_, fun _ => Or.inl⟩ ?_
    · intro source t hdone
      rw [Readers.resolved, Bool.or_eq_true] at hdone ⊢
      exact hdone.imp_left fun hring => contains_insert.mpr (Or.inr hring)
    · intro slot hslot _ t _ hflying hdone
      rw [Readers.resolved, Bool.or_eq_true] at hdone ⊢
      refine hdone.imp_left fun hring => (contains_insert.mp hring).resolve_left fun heq => ?_
      obtain ⟨hkey, rfl⟩ := Prod.mk.inj heq
      exact hfree slot hslot hkey hflying
    · exact fun other hother => (contains_of_erase hother).2
  · exact h

/-! ## The one owner of a held window's source -/

omit [DecidableEq K] in
theorem eq_of_length_le_one {α : Type} {xs : List α} (h : xs.length ≤ 1) {x y : α} (hx : x ∈ xs)
    (hy : y ∈ xs) : x = y := by
  obtain ⟨i, hi, hxi⟩ := getElem_of_mem hx
  obtain ⟨j, hj, hyj⟩ := getElem_of_mem hy
  obtain rfl : i = j := by omega
  exact hxi.symm.trans hyj

/-- No two readers have required times of a held window's source. -/
theorem Consistent.sole_slot (h : r.Consistent) {one two : Slot K} (hone : one ∈ r.slots)
    (htwo : two ∈ r.slots) (hheld : r.windows.contains one.key) (hkey : one.key = two.key)
    {time' : ℤ} (htime : time ∈ one.plan.required) (htime' : time' ∈ two.plan.required) :
    one = two := by
  have hsole := h.sole one.key hheld
  have hcount : (r.slots.filter fun slot => slot.key = one.key ∧ slot.plan.required ≠ []).length
      ≤ 1 := by
    rw [← countP_eq_length_filter]
    unfold owners at hsole
    omega
  have hone' : one ∈ r.slots.filter fun slot => slot.key = one.key ∧ slot.plan.required ≠ [] :=
    mem_filter.mpr ⟨hone, by simpa using ne_nil_of_mem htime⟩
  have htwo' : two ∈ r.slots.filter fun slot => slot.key = one.key ∧ slot.plan.required ≠ [] :=
    mem_filter.mpr ⟨htwo, by simpa [hkey] using ne_nil_of_mem htime'⟩
  exact eq_of_length_le_one hcount hone' htwo'

/-- No region of a held window's source waits beside a reader that has required times of it. -/
theorem Consistent.not_pending (h : r.Consistent) (hslot : slot ∈ r.slots)
    (hheld : r.windows.contains slot.key) (htime : time ∈ slot.plan.required) {entry : K × Region}
    (hentry : entry ∈ r.pending) : entry.1 ≠ slot.key := by
  intro hkey
  have hsole := h.sole slot.key hheld
  have hslots : 0 < r.slots.countP fun other => other.key = slot.key ∧ other.plan.required ≠ [] :=
    countP_pos_iff.mpr ⟨slot, hslot, by simpa using ne_nil_of_mem htime⟩
  have hpending : 0 < r.pending.countP fun entry => entry.1 = slot.key :=
    countP_pos_iff.mpr ⟨entry, hentry, by simpa using hkey⟩
  unfold owners at hsole
  omega

/-! ## Failures -/

omit [DecidableEq K] in
theorem get?_extend_const [DecidableEq K] {m : KeyedMap (K × ℤ) (ℕ × E)} {new : Finset (K × ℤ)}
    {frame : K × ℤ} {failure failure' : ℕ × E}
    (h : (m.extend new fun _ => failure).get? frame = some failure') :
    m.get? frame = some failure' ∨ frame ∈ new ∧ failure' = failure := by
  rw [get?_extend] at h
  split at h
  · rename_i hnew
    exact Or.inr ⟨hnew, (Option.some.inj h).symm⟩
  · exact Or.inl h

theorem resolved_extend (failed : Finset (K × ℤ)) (failure : ℕ × E) {key : K} (h : r.resolved key time) :
    Readers.resolved { r with failures := r.failures.extend failed fun _ => failure } key time := by
  rw [Readers.resolved, Bool.or_eq_true] at h ⊢
  refine h.imp_right fun hfailed => ?_
  rw [KeyedMap.contains, get?_extend]
  split
  · rfl
  · exact hfailed

/-- Frames that fail at once, in the current version, are not lost. -/
theorem Kept.fail (h : r.Kept limit) (failed : Finset (K × ℤ)) (error : E) :
    Kept limit { r with failures := r.failures.extend failed fun _ => (r.version, error) } := by
  refine h.results rfl rfl rfl rfl rfl rfl (fun _ _ => resolved_extend _ _) ?_
  intro frame failure hfailure
  exact (get?_extend_const hfailure).imp_right fun hnew => congrArg Prod.fst hnew.2

/-- Frames fail at once. -/
theorem Resolves.fail {failed : Finset (K × ℤ)} {failure : ℕ × E} (hfails : ∀ frame ∈ failed,
      Fails r { r with failures := r.failures.extend failed fun _ => failure } frame) :
    Resolves r { r with failures := r.failures.extend failed fun _ => failure } := by
  refine ⟨rfl, rfl, rfl, rfl, rfl, rfl, fun _ _ => resolved_extend failed failure, ?_, ?_⟩
  · intro slot hslot hheld time htime hflying hdone
    rw [Readers.resolved, Bool.or_eq_true] at hdone ⊢
    refine hdone.imp_right fun hfailed => ?_
    obtain ⟨failure', hfailure⟩ := contains_iff.mp hfailed
    rcases get?_extend_const hfailure with hold | ⟨hnew, -⟩
    · exact contains_iff.mpr ⟨failure', hold⟩
    · have hnone := ((hfails _ hnew).slots slot hslot hheld rfl htime).1
      rw [hflying] at hnone
      cases hnone
  · intro frame hfailed
    obtain ⟨failure', hfailure⟩ := contains_iff.mp hfailed
    rcases get?_extend_const hfailure with hold | ⟨hnew, -⟩
    · exact Or.inl (contains_iff.mpr ⟨failure', hold⟩)
    · exact Or.inr (hfails frame hnew)

/-- The decode in flight of a reader, or that of one that retired while it decoded. -/
def Flown (r : Readers K F E) (id : ℕ) (time : ℤ) (version : ℕ) : Prop :=
  ∀ slot ∈ r.slot? id, slot.state = .retiring ∨ slot.state = .decoding time version

theorem Kept.keepFailure (h : r.Kept limit) (hversion : slot.plan.version = r.version) (time : ℤ)
    (version : ℕ) (error : E) :
    (r.keepFailure slot time version error).2.Kept limit := by
  unfold Readers.keepFailure
  split
  · rename_i hcurrent
    rw [hcurrent.1, hversion]
    exact h.fail {(slot.key, time)} error
  · exact h

/-- A result loses no required frame, whatever it is. -/
theorem Kept.deliver (h : r.Kept limit) (id : ℕ) (time : ℤ) (version : ℕ) (result : Except E F)
    (now : ℕ) : (r.deliver id time version result now).2.Kept limit := by
  unfold Readers.deliver
  split
  · exact h
  · exact h
  · split
    · exact h.lighten (lightens_easeSlot id (fun _ => rfl) (fun _ => Or.inl rfl) fun _ => subset_rfl)
    · refine (h.lighten (lightens_easeSlot id ?_ ?_ ?_)).keepFrame _ time _
      · exact fun _ => rfl
      · exact fun _ => Or.inr ⟨rfl, nofun⟩
      · exact fun _ => subset_rfl
  · rename_i slot error hslot
    have hversion := h.plans slot (slot?_mem hslot)
    split
    · refine h.lighten ((lightens_easeSlot id ?_ ?_ ?_).trans (lightens_unkept _ _))
      · exact fun _ => rfl
      · exact fun _ => Or.inl rfl
      · exact fun _ => Finset.empty_subset _
    · refine (h.lighten ((lightens_easeSlot id ?_ ?_ ?_).trans (lightens_unkept _ _))).keepFailure
        hversion time version error
      · exact fun _ => rfl
      · exact fun _ => Or.inr ⟨rfl, nofun⟩
      · exact fun _ => Finset.empty_subset _

/-- A reader that could not start leaves no required time behind: they have all failed. -/
theorem Kept.failStart (h : r.Kept limit) (id : ℕ) (error : E) : (r.failStart id error).Kept limit := by
  unfold Readers.failStart
  split
  · exact h
  · rename_i slot hslot
    have hmem : slot ∈ r.slots := slot?_mem hslot
    refine (h.fail _ error).leave hmem (Or.inr ?_)
    intro time htime hrequired
    rw [Readers.resolved, Bool.or_eq_true]
    refine Or.inr ?_
    rw [KeyedMap.contains, get?_extend, if_pos]
    · rfl
    · exact Finset.mem_filter.mpr ⟨hrequired, rfl, htime⟩

section

variable (h : r.Sound) (hkept : r.Kept limit)

include h hkept

/-- The failure of a reader's flight, once its slot is idle. -/
theorem Sound.keepFailure (hslot : r.slot? slot.id = some slot)
    {version : ℕ} (hstate : slot.state = .decoding time version) {f : Slot K → Slot K}
    (hprofile : ∀ slot, (f slot).profile = slot.profile)
    (hidle : ∀ slot, (f slot).state.flying = none) (hsame : SamePlan r r')
    (hslots : r'.slots = updateSlots r.slots slot.id f) (hsound : r'.Sound) (error : E) :
    (r'.keepFailure slot time version error).2.Sound := by
  unfold Readers.keepFailure
  split
  · rename_i hcurrent
    obtain ⟨rfl, hrequired⟩ := hcurrent
    have hmem := slot?_mem hslot
    have hplan := h.base.plans slot hmem
    have hflight := h.base.flights slot hmem
    rw [hsame.required] at hrequired
    -- the flight was of a required time of the plan
    have htime : time ∈ slot.plan.required := by
      refine (hflight.planned time hstate).resolve_right fun hahead => ?_
      exact hplan.ahead time hahead hrequired
    have hfails : ∀ frame ∈ ({(slot.key, time)} : Finset (K × ℤ)),
        Fails r' { r' with failures := r'.failures.extend {(slot.key, time)} fun _ =>
          (slot.plan.version, error) } frame := by
      intro frame hframe
      obtain rfl := Finset.mem_singleton.mp hframe
      refine ⟨hsame.required ▸ hrequired, ?_, ?_⟩
      · intro other hother hheld hkey hother'
        rw [hslots] at hother
        rw [hsame.windows] at hheld
        rcases (mem_updateSlots hkept.nodup hslot).mp hother with rfl | ⟨hold, hne⟩
        · refine ⟨hidle slot, fun window hwindow => ?_⟩
          obtain ⟨hkey', hplan'⟩ := Prod.mk.inj (Prod.mk.inj (hprofile slot)).2
          rw [hplan'] at hwindow
          rcases hflight.window time hstate window hwindow with ⟨heq, -⟩ | ⟨-, hdone⟩
          · exact Or.inl heq
          · rw [← hsame.resolved (hplan.planned _ (hplan.end_mem hwindow))] at hdone
            rw [hkey']
            exact Or.inr (resolved_extend _ _ hdone)
        · have heq := h.base.sole_slot hold hmem hheld hkey hother' htime
          exact absurd (congrArg Slot.id heq) hne
      · intro entry hentry hheld hkey
        rw [hsame.windows, hkey] at hheld
        rw [hsame.pending] at hentry
        exact absurd hkey (h.base.not_pending hmem hheld htime hentry)
    exact hsound.resolve (.fail hfails) fun _ hframe => hframe
  · exact hsound

/-- A result of the reader's flight. -/
theorem Sound.deliver {id : ℕ} {version : ℕ} (hflown : r.Flown id time version) (result : Except E F) (now : ℕ) :
    (r.deliver id time version result now).2.Sound := by
  unfold Readers.deliver
  split
  · exact h
  · exact h
  · rename_i slot frame hslot
    obtain rfl := slot?_id hslot
    split
    · exact h.lighten (lightens_easeSlot slot.id (fun _ => rfl) (fun _ => Or.inl rfl)
        fun _ => subset_rfl)
    · rename_i hstay
      have hstate := (hflown slot hslot).resolve_left hstay
      have hidle : (r.updateSlot slot.id fun slot => slot.finish now time).Sound :=
        h.lighten (lightens_easeSlot slot.id (fun _ => rfl) (fun _ => Or.inr ⟨rfl, nofun⟩)
          fun _ => subset_rfl)
      refine hidle.keepFrame ?_ frame
      intro other hother hkey hflying
      rcases (mem_updateSlots hkept.nodup hslot).mp hother with rfl | ⟨hold, hne⟩
      · cases hflying
      · exact hne (h.base.apart other hold slot (slot?_mem hslot) hkey time hflying (flying_iff.mpr ⟨version, hstate⟩))
  · rename_i slot error hslot
    obtain rfl := slot?_id hslot
    split
    · refine h.lighten ((lightens_easeSlot slot.id ?_ ?_ ?_).trans (lightens_unkept _ _))
      · exact fun _ => rfl
      · exact fun _ => Or.inl rfl
      · exact fun _ => Finset.empty_subset _
    · rename_i hstay
      have hstate := (hflown slot hslot).resolve_left hstay
      have hlost (ahead : Bool) : ((r.updateSlot slot.id fun slot => slot.fail now ahead).unkept
          slot.key slot.retained).Sound := by
        refine h.lighten ((lightens_easeSlot slot.id ?_ ?_ ?_).trans (lightens_unkept _ _))
        · exact fun _ => rfl
        · exact fun _ => Or.inr ⟨rfl, nofun⟩
        · exact fun _ => Finset.empty_subset _
      have hfails (ahead : Bool) : (((r.updateSlot slot.id fun slot => slot.fail now ahead).unkept
          slot.key slot.retained).keepFailure slot time version error).2.Sound := by
        refine h.keepFailure (f := fun slot => slot.fail now ahead) hkept hslot hstate
          (fun _ => rfl) (fun _ => rfl) ?_ ?_ (hlost ahead) error
        · exact ⟨rfl, rfl, rfl, rfl, rfl, rfl, rfl, rfl, fun _ _ => rfl⟩
        · rfl
      exact hfails _

/-- The required times of a reader that could not start, or that panicked, fail. -/
theorem Sound.failStart (id : ℕ) (error : E) : (r.failStart id error).Sound := by
  unfold Readers.failStart
  split
  · exact h
  · rename_i slot hslot
    have hmem := slot?_mem hslot
    set failed := r.required.filter fun frame =>
      frame.1 = slot.key ∧ frame.2 ∈ slot.plan.required with hfailed
    show Sound { r.leave slot with
      failures := (r.leave slot).failures.extend failed fun _ => (r.version, error) }
    have hleft := h.leave slot
    have hother : ∀ other ∈ (r.leave slot).slots, other ∈ r.slots ∧ other.id ≠ slot.id := by
      intro other hother
      exact ⟨(sublist_leave slot).subset hother, ne_of_mem_leave hkept.nodup hother⟩
    have hfails : ∀ frame ∈ failed, Fails (r.leave slot) { r.leave slot with
        failures := (r.leave slot).failures.extend failed fun _ => (r.version, error) } frame := by
      intro frame hframe
      obtain ⟨hrequired, hkey, htime⟩ := Finset.mem_filter.mp hframe
      refine ⟨hrequired, ?_, ?_⟩
      · intro other hmem' hheld hkey' hplanned
        obtain ⟨hold, hne⟩ := hother other hmem'
        have heq := h.base.sole_slot hold hmem hheld (hkey'.trans hkey) hplanned htime
        exact absurd (congrArg Slot.id heq) hne
      · intro entry hentry hheld hkey'
        rw [hkey'.trans hkey] at hheld
        exact absurd (hkey'.trans hkey) (h.base.not_pending hmem hheld htime hentry)
    exact hleft.resolve (.fail hfails) fun _ hframe => hframe

end

end Readers

end Kinewright.Media
