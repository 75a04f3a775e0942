import Kinewright.Lib.Trace
import Kinewright.Media.Ledger
import Kinewright.Media.Superseded

/-!
# No required frame is lost

The runs of the scheduler before its shutdown: jobs, each a `hold` and the post of its planned
regions under one lock, and what the readers and the preview do in between. In every state that they
reach a required frame is there, has failed, is planned by a reader that stays, or waits (H-3).
-/

namespace Kinewright.Media

open Option

/-- A move of the preview or of a reader. A job's windows, sizes and regions are planned together. -/
inductive Move (K F E : Type)
  | job (windows : KeyedMap K (ℤ × ℤ)) (kept : KeyedMap K ℕ) (demand : List (K × List ℤ × List ℤ))
      (sizes : KeyedMap K ℕ) (generated : ℕ) (detached : List ℕ) (now : ℕ)
  | fallBack (now : ℕ)
  | call (call : Call K F E)

namespace Readers

variable {K F E : Type} [DecidableEq K] {limit : ℕ} {r r' : Readers K F E}

/-- What a move does. A job that has no plan posts nothing: the preview falls back. -/
def move [Weighed F] (r : Readers K F E) : Move K F E → Option (Readers K F E)
  | .job windows kept demand sizes generated detached now => (planRegions demand r.limit).map fun planned =>
      ((r.hold windows kept).postPlanned planned sizes generated detached now).2
  | .fallBack now => some (r.post [] .empty 0 now).2
  | .call call => (r.call call).map Prod.snd

/-- Which moves are made before a shutdown. A job demands each source once and is planned beside
readers that were detached while they retired. A reader reports on the decode that it was given, and
exits once it was told to retire. A cache clear leaves what a job waits for. -/
def Scheduled (r : Readers K F E) : Move K F E → Prop
  | .job _ _ demand _ _ detached _ => (demand.map Prod.fst).Nodup ∧
      ∀ slot ∈ r.slots, slot.id ∈ detached → slot.state = .retiring
  | .fallBack _ => True
  | .call (.next _ _ shutdown) => shutdown = false
  | .call (.deliver id time version _ _) => r.Flown id time version
  | .call (.refilledExact id t _ _ _) => r.Refills id t
  | .call (.exited id) => ∀ slot ∈ r.slot? id, slot.state = .retiring
  | .call (.clearCache active _) => active = true
  | .call (.hold _ _) | .call (.post _ _ _ _ _) | .call (.forget _) | .call .clearRings
  | .call .retireAll => False
  | .call _ => True

instance (r : Readers K F E) (id : ℕ) (time : ℤ) (version : ℕ) : Decidable (r.Flown id time version) :=
  inferInstanceAs (Decidable (∀ slot ∈ r.slot? id, slot.state = .retiring ∨ slot.state = .decoding time version))

instance (window : Option (ℤ × ℤ)) (t : ℤ) : Decidable (∃ start, window = some (start, t)) :=
  decidable_of_iff (window.map Prod.snd = some t) (by
    rw [map_eq_some_iff]
    exact ⟨fun ⟨⟨start, _⟩, h, rfl⟩ => ⟨start, h⟩, fun ⟨start, h⟩ => ⟨(start, t), h, rfl⟩⟩)

instance (r : Readers K F E) (id : ℕ) (t : ℤ) : Decidable (r.Refills id t) :=
  inferInstanceAs (Decidable (∀ slot ∈ r.slot? id, slot.state = .decoding t slot.plan.version →
    ∃ start, slot.plan.window = some (start, t)))

instance (r : Readers K F E) (m : Move K F E) : Decidable (r.Scheduled m) := by
  unfold Scheduled
  split <;> infer_instance

/-- One move of a run. -/
def step [Weighed F] (r : Readers K F E) (m : Move K F E) : Option (Readers K F E) :=
  if r.Scheduled m then r.move m else none

/-! ## One move -/

/-- A call of the lane before its shutdown loses no required frame and keeps the plans sound. -/
theorem Kept.call [Weighed F] (h : r.Kept limit) {call : Call K F E} {answer : Answer K F E}
    (hscheduled : r.Scheduled (.call call)) (hcall : r.call call = some (answer, r')) :
    r'.Kept limit ∧ (r.Sound → r'.Sound) := by
  have hlighten {r' : Readers K F E} (hlightens : Lightens r r') : r'.Kept limit ∧ (r.Sound → r'.Sound) :=
    ⟨h.lighten hlightens, fun hsound => hsound.lighten hlightens⟩
  cases call with
  | hold windows kept | post planned sizes generated detached now | forget keep | clearRings
  | retireAll => exact hscheduled.elim
  | admitRequired generated pinned victims =>
    obtain ⟨⟨admission, next⟩, hadmitted, heq⟩ := map_eq_some_iff.mp hcall
    cases heq
    exact ⟨h.admitRequired hadmitted, fun hsound => hsound.admitRequired hadmitted⟩
  | assign now =>
    cases hcall
    exact ⟨h.assign now, fun hsound => hsound.assign now⟩
  | next id now shutdown =>
    obtain rfl : shutdown = false := hscheduled
    cases hcall
    exact ⟨h.next id now, fun hsound => hsound.next h id now⟩
  | granted id permits now =>
    cases hcall
    exact hlighten (lightens_granted id permits now)
  | closed id =>
    cases hcall
    exact hlighten (lightens_closed id)
  | deliver id time version result now =>
    cases hcall
    exact ⟨h.deliver id time version result now, fun hsound => hsound.deliver h hscheduled result now⟩
  | refilledExact id t version keptFrom kept =>
    cases hcall
    exact ⟨h.refilledExact id t version keptFrom kept,
      fun hsound => hsound.refilledExact h hscheduled version keptFrom kept⟩
  | stopped id now =>
    cases hcall
    exact hlighten (lightens_stopped id now)
  | failStart id error =>
    cases hcall
    exact ⟨h.failStart id error, fun hsound => hsound.failStart h id error⟩
  | exited id =>
    cases hcall
    exact ⟨h.exited hscheduled, fun hsound => hsound.exited id⟩
  | adopt bytes =>
    cases hcall
    exact hlighten (lightens_adopt bytes)
  | clearCache active now =>
    obtain rfl : active = true := hscheduled
    cases hcall
    exact hlighten (lightens_clearCache now)

/-- A move of the lane before its shutdown loses no required frame. -/
theorem Kept.step [Weighed F] (h : r.Kept limit) {m : Move K F E} (hstep : r.step m = some r') : r'.Kept limit := by
  simp only [Readers.step, ite_none_right_eq_some] at hstep
  obtain ⟨hscheduled, hmove⟩ := hstep
  rcases m with ⟨windows, kept, demand, sizes, generated, detached, now⟩ | now | call
  · obtain ⟨planned, -, rfl⟩ := map_eq_some_iff.mp hmove
    exact (h.hold windows kept).postPlanned planned sizes generated detached now
  · obtain rfl := Option.some.inj hmove
    exact h.postWithin [] .empty 0 [] now
  · obtain ⟨⟨answer, after⟩, hcall, rfl⟩ := map_eq_some_iff.mp hmove
    exact (h.call hscheduled hcall).1

/-- A job that plans a source with a held window in one region and without lookahead, as a paused
step does. -/
def SingleWindows (limit : ℕ) : Move K F E → Prop
  | .job windows _ demand _ _ _ _ => ∀ planned ∈ planRegions demand limit, ∀ key ∈ windows.keys,
      (planned.regions.countP fun entry => entry.1 = key) ≤ 1 ∧
        ∀ entry ∈ planned.regions, entry.1 = key → entry.2.lookahead = []
  | _ => True

instance (m : Move K F E) : Decidable (SingleWindows limit m) := by
  unfold SingleWindows
  split <;> infer_instance

/-- A move keeps the plans sound, a job if its held windows are single. -/
theorem Sound.step [Weighed F] (h : r.Sound) (hkept : r.Kept limit) {m : Move K F E}
    (hsingle : SingleWindows limit m) (hstep : r.step m = some r') : r'.Sound := by
  simp only [Readers.step, ite_none_right_eq_some] at hstep
  obtain ⟨hscheduled, hmove⟩ := hstep
  rcases m with ⟨windows, kept, demand, sizes, generated, detached, now⟩ | now | call
  · obtain ⟨planned, hplanned, rfl⟩ := map_eq_some_iff.mp hmove
    obtain ⟨hnodup, hdetached⟩ := hscheduled
    rw [hkept.bound] at hplanned
    have hheld : ∀ key, windows.contains key → key ∈ windows.keys := fun key hkey => (windows.mem_keys key).mpr hkey
    have hregions : Single windows planned.regions := by
      refine ⟨?_, ?_, ?_⟩
      · rintro ⟨key, region⟩ hone ⟨source, region'⟩ htwo rfl t ht
        exact planRegions_separate hnodup hplanned hone htwo ht
      · exact fun key hkey => (hsingle planned hplanned key (hheld key hkey)).1
      · exact fun entry hentry hkey =>
          (hsingle planned hplanned entry.1 (hheld entry.1 hkey)).2 entry hentry rfl
    exact Sound.postPlanned (h.aloft.hold windows kept) (hkept.hold windows kept) hregions hdetached sizes generated now
  · obtain rfl := Option.some.inj hmove
    have hnone : Single r.windows ([] : List (K × Region)) := by
      refine ⟨?_, fun _ _ => Nat.zero_le _, ?_⟩
      · intro one hone
        cases hone
      · intro entry hentry
        cases hentry
    refine Sound.postWithin h.aloft hkept hnone ?_ .empty 0 now
    intro slot _ hin
    cases hin
  · obtain ⟨⟨answer, after⟩, hcall, rfl⟩ := map_eq_some_iff.mp hmove
    exact (hkept.call hscheduled hcall).2 h

/-! ## Runs -/

omit [DecidableEq K] in
theorem slots_new (pool budget : ℕ) (slot : Slot K) : slot ∉ (new pool budget : Readers K F E).slots := List.not_mem_nil

theorem kept_new (pool budget : ℕ) : (new pool budget : Readers K F E).Kept (readerLimit pool) := by
  refine ⟨List.nodup_nil, ?_, rfl, Nat.zero_le _, fun _ => Nat.zero_le _, ?_, ?_, ?_⟩
  iterate 2
    · intro slot hslot
      exact absurd hslot (slots_new pool budget slot)
  · intro frame failure hfailure
    cases hfailure
  · intro frame hframe
    exact absurd hframe (Finset.notMem_empty frame)

theorem sound_new (pool budget : ℕ) : (new pool budget : Readers K F E).Sound := by
  refine ⟨⟨?_, ?_, ?_, ?_, ?_, fun _ _ => Nat.zero_le _, ?_⟩, ?_, ?_⟩
  iterate 3
    · intro slot hslot
      exact absurd hslot (slots_new pool budget slot)
  · intro entry hentry
    exact absurd hentry List.not_mem_nil
  · intro frame hfailed
    cases hfailed
  · intro frame hframe
    exact absurd hframe (Finset.notMem_empty frame)
  · intro frame hreserved
    cases hreserved
  · intro slot hslot
    exact absurd hslot (slots_new pool budget slot)

/-- The state after a run of moves. -/
def run [Weighed F] (r : Readers K F E) (moves : List (Move K F E)) : Option (Readers K F E) := moves.foldlM step r

theorem Kept.run [Weighed F] (h : r.Kept limit) {moves : List (Move K F E)}
    (hrun : r.run moves = some r') : r'.Kept limit :=
  Trace.run_invariant (P := fun _ => True) (fun _ _ _ h _ hstep => h.step hstep) h (fun _ _ => trivial) hrun

theorem Sound.run [Weighed F] (h : r.Sound) (hkept : r.Kept limit) {moves : List (Move K F E)}
    (hsingle : ∀ m ∈ moves, SingleWindows limit m) (hrun : r.run moves = some r') : r'.Sound :=
  (Trace.run_invariant (I := fun r => r.Kept limit ∧ r.Sound)
    (fun _ _ _ h hsingle hstep => ⟨h.1.step hstep, h.2.step h.1 hsingle hstep⟩) ⟨hkept, h⟩
    hsingle hrun).2

/-- H-3. In every run before the shutdown, every required frame of the current plan is in the ring,
has failed in the current version, is required by the plan of a reader that is not retiring, or waits
in a region; each source has at most `readersPerSource` readers, and all sources `readerLimit`; and
failures are of the current version. If moreover every job holds only windows of sources that it
plans in one region without lookahead, no two readers decode one frame, and failures are of required
frames. -/
theorem no_required_frame_lost [Weighed F] (pool budget : ℕ) (moves : List (Move K F E))
    {r : Readers K F E} (hrun : (new pool budget).run moves = some r) :
    (∀ frame ∈ r.required, r.rings.contains frame ∨
      (∃ failure, r.failures.get? frame = some failure ∧ failure.1 = r.version) ∨
      (∃ slot ∈ r.slots, slot.key = frame.1 ∧ slot.state ≠ .retiring ∧ frame.2 ∈ slot.plan.required) ∨
      ∃ entry ∈ r.pending, entry.1 = frame.1 ∧ frame.2 ∈ entry.2.required) ∧
    (∀ key, (r.slots.countP fun slot => slot.key = key) ≤ readersPerSource) ∧
    r.slots.length ≤ readerLimit pool ∧
    (∀ frame failure, r.failures.get? frame = some failure → failure.1 = r.version) ∧
    ((∀ m ∈ moves, SingleWindows (readerLimit pool) m) →
      (∀ slot ∈ r.slots, ∀ other ∈ r.slots, slot.key = other.key → ∀ time,
        slot.state.flying = some time → other.state.flying = some time → slot = other) ∧
      ∀ frame, r.failures.contains frame → frame ∈ r.required) := by
  have hkept := (kept_new pool budget).run hrun
  refine ⟨?_, hkept.perSource, hkept.fits, hkept.failures, fun hsingle => ?_⟩
  · intro frame hframe
    rcases hkept.owed frame hframe with hdone | hplanned | hwaiting
    · rw [resolved, Bool.or_eq_true] at hdone
      rcases hdone with hring | hfailed
      · exact Or.inl hring
      · obtain ⟨failure, hfailure⟩ := KeyedMap.contains_iff.mp hfailed
        exact Or.inr (Or.inl ⟨failure, hfailure, hkept.failures frame failure hfailure⟩)
    · exact Or.inr (Or.inr (Or.inl hplanned))
    · exact Or.inr (Or.inr (Or.inr hwaiting))
  · have hsound := (sound_new pool budget).run (kept_new pool budget) hsingle hrun
    refine ⟨?_, hsound.base.failures⟩
    intro slot hslot other hother hkey time hflying hflying'
    have hid := hsound.base.apart slot hslot other hother hkey time hflying hflying'
    exact List.inj_on_of_nodup_map hkept.nodup hslot hother hid

/-- The windows, and the sizes, of the jobs below. -/
def demoWindows : KeyedMap ℕ (ℤ × ℤ) := KeyedMap.empty.insert 0 (0, 1)

def demoSizes : KeyedMap ℕ ℕ := KeyedMap.empty.insert 0 10

/-- A paused step to 1, whose refill decodes 1 and keeps 0. -/
def stepBack : List (Move ℕ Fr String) :=
  [.job demoWindows demoSizes [(0, [0, 1], [])] demoSizes 0 [] 0, .call (.admitRequired 0 (fun _ => false) []),
    .call (.next 0 0 false),
    .call (.granted 0 (some 1) 0),
    .call (.next 0 0 false),
    .call (.refilledExact 0 1 1 (some 0) {0}),
    .call (.deliver 0 1 1 (.ok { value := 1, bytes := 10 }) 0)]

theorem no_required_frame_lost_demo : ∃ r : Readers ℕ Fr String,
    (new 2 200).run stepBack = some r ∧ r.required = {(0, 0), (0, 1)} ∧ (∀ frame ∈ r.required, r.rings.contains frame ∨
        (∃ failure, r.failures.get? frame = some failure ∧ failure.1 = r.version) ∨
        (∃ slot ∈ r.slots, slot.key = frame.1 ∧ slot.state ≠ .retiring ∧ frame.2 ∈ slot.plan.required) ∨
        ∃ entry ∈ r.pending, entry.1 = frame.1 ∧ frame.2 ∈ entry.2.required) ∧
      ∀ frame, r.failures.contains frame → frame ∈ r.required := by
  have hsome : ((new 2 200 : Readers ℕ Fr String).run stepBack).any fun r =>
      r.required = {(0, 0), (0, 1)} := by decide
  have hsingle : ∀ m ∈ stepBack, SingleWindows (readerLimit 2) m := by decide
  rcases hrun : (new 2 200 : Readers ℕ Fr String).run stepBack with _ | r
  · rw [hrun] at hsome
    cases hsome
  · rw [hrun] at hsome
    have hall := no_required_frame_lost 2 200 stepBack hrun
    exact ⟨r, rfl, of_decide_eq_true hsome, hall.1, (hall.2.2.2.2 hsingle).2⟩

/-- A job that holds the window and looks ahead into it: 0 stays required as a continued time of the
first reader, and the new reader of the lookahead decodes it too. -/
def lookIntoWindow : List (Move ℕ Fr String) :=
  [.job demoWindows demoSizes [(0, [1], [0])] demoSizes 0 [] 0, .call (.next 1 0 false), .call (.granted 1 (some 1) 0),
    .call (.next 1 0 false),
    .call (.next 0 0 false)]

/-- Beside a held window two readers can decode one frame. -/
theorem two_readers_decode_one_frame : ∃ r : Readers ℕ Fr String,
    (new 2 200).run (stepBack ++ lookIntoWindow) = some r ∧
      ∃ slot ∈ r.slots, ∃ other ∈ r.slots, slot.id ≠ other.id ∧ slot.key = other.key ∧
        slot.state.flying = some 0 ∧ other.state.flying = some 0 := by
  have hsome : ((new 2 200 : Readers ℕ Fr String).run (stepBack ++ lookIntoWindow)).any fun r =>
      ∃ slot ∈ r.slots, ∃ other ∈ r.slots, slot.id ≠ other.id ∧ slot.key = other.key ∧
        slot.state.flying = some 0 ∧ other.state.flying = some 0 := by decide
  rcases hrun : (new 2 200 : Readers ℕ Fr String).run (stepBack ++ lookIntoWindow) with _ | r
  · rw [hrun] at hsome
    cases hsome
  · rw [hrun] at hsome
    exact ⟨r, rfl, of_decide_eq_true hsome⟩

end Readers

end Kinewright.Media
