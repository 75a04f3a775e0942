import Kinewright.Media.Plans

/-!
# Flights keep the plans sound

A reader that starts a decode takes the frame's reservation, so nobody else starts it. Its frame, or
its failure, resolves that one frame, which nobody else decodes.
-/

namespace Kinewright.Media

open List ReaderState

namespace Readers

variable {K F E : Type} [DecidableEq K] {limit : ℕ} {r r' : Readers K F E}

/-! ## Reservations that shrink -/

theorem contains_unkept (key : K) (times : Finset ℤ) (frame : K × ℤ) :
    (r.unkept key times).reserved.contains frame = r.reserved.contains frame := by
  show (Option.map _ (r.reserved.get? frame)).isSome = (r.reserved.get? frame).isSome
  rw [Option.isSome_map]

theorem samePlan_unkept (key : K) (times : Finset ℤ) : SamePlan r (r.unkept key times) :=
  ⟨rfl, rfl, rfl, rfl, rfl, rfl, rfl, rfl, fun _ _ => rfl⟩

theorem contains_of_erase {reserved : KeyedMap (K × ℤ) ℕ} {frame other : K × ℤ}
    (h : (reserved.erase frame).contains other) : other ≠ frame ∧ reserved.contains other := by
  rw [KeyedMap.contains, KeyedMap.get?_erase] at h
  split at h
  · cases h
  · rename_i hne
    exact ⟨hne, h⟩

/-! ## Changes outside the plans -/

omit [DecidableEq K] in
/-- A change outside the plans and the slots, with no new reservation. -/
theorem lightens_same (hsame : SamePlan r r') (hslots : r'.slots = r.slots)
    (hreserved : ∀ frame, r'.reserved.contains frame → r.reserved.contains frame) :
    Lightens r r' := by
  refine ⟨hsame, ?_, hreserved⟩
  rw [hslots]
  exact forall₂_same.mpr fun slot _ => ⟨.refl slot, .refl slot⟩

variable {id : ℕ}

omit [DecidableEq K] in
/-- One slot eases, and its reader retires only when nothing of its plan is owed. -/
theorem lightens_updateSlot {f : Slot K → Slot K}
    (hf : ∀ slot, r.slot? id = some slot → slot.Eases (f slot) ∧ r.Stays slot (f slot)) :
    Lightens r (r.updateSlot id f) where
  same := ⟨rfl, rfl, rfl, rfl, rfl, rfl, rfl, rfl, fun _ _ => rfl⟩
  slots := forall₂_updateSlots (fun slot => ⟨.refl slot, .refl slot⟩) hf
  reserved := fun _ hframe => hframe

omit [DecidableEq K] in
/-- One slot eases, with its reader where it was or idle. -/
theorem lightens_easeSlot (id : ℕ) {f : Slot K → Slot K} (hprofile : ∀ slot, (f slot).profile = slot.profile)
    (hstate : ∀ slot, (f slot).state = slot.state ∨ (f slot).state.flying = none ∧ (f slot).state ≠ .retiring)
    (hretained : ∀ slot, (f slot).retained ⊆ slot.retained) :
    Lightens r (r.updateSlot id f) := by
  refine lightens_updateSlot fun slot _ => ⟨⟨hprofile slot, ?_, hretained slot⟩, hprofile slot, ?_⟩
  · exact (hstate slot).imp_right And.left
  · intro hleft
    rcases hstate slot with heq | ⟨-, hstay⟩
    · exact Or.inl (heq ▸ hleft)
    · exact absurd hleft hstay

theorem lightens_unkept (key : K) (times : Finset ℤ) : Lightens r (r.unkept key times) :=
  lightens_same (samePlan_unkept key times) rfl fun frame hframe =>
    contains_unkept (r := r) key times frame ▸ hframe

omit [DecidableEq K] in
theorem lightens_release (bytes : ℕ) : Lightens r (r.release bytes) :=
  lightens_same ⟨rfl, rfl, rfl, rfl, rfl, rfl, rfl, rfl, fun _ _ => rfl⟩ rfl fun _ hframe => hframe

omit [DecidableEq K] in
theorem lightens_granted (id : ℕ) (permits : Option ℕ) (now : ℕ) : Lightens r (r.granted id permits now) := by
  refine lightens_easeSlot id (fun _ => rfl) ?_ fun _ => subset_rfl
  intro slot
  dsimp only
  split
  · exact Or.inr ⟨rfl, nofun⟩
  · exact Or.inl rfl

theorem lightens_closed (id : ℕ) : Lightens r (r.closed id) := by
  unfold Readers.closed
  split
  · exact lightens_same (.refl r) rfl fun _ hframe => hframe
  · have hshut : Lightens r (r.updateSlot id Slot.shut) :=
      lightens_easeSlot id (fun _ => rfl) (fun _ => Or.inl rfl) fun _ => Finset.empty_subset _
    exact (hshut.trans (lightens_release _)).trans (lightens_unkept _ _)

theorem lightens_stopped (id now : ℕ) : Lightens r (r.stopped id now) := by
  unfold Readers.stopped
  split
  · exact lightens_same (.refl r) rfl fun _ hframe => hframe
  · refine (lightens_easeSlot id (f := fun slot => slot.stop now) ?_ ?_ ?_).trans (lightens_unkept _ _)
    · intro slot
      unfold Slot.stop
      split <;> rfl
    · intro slot
      unfold Slot.stop
      split
      · rename_i hstate
        exact Or.inr (by simp [hstate, ReaderState.flying])
      · by_cases hleft : slot.state = .retiring
        · exact Or.inl (by simp [hleft])
        · exact Or.inr (by simp [hleft, ReaderState.flying])
    · intro slot
      unfold Slot.stop
      split <;> exact Finset.empty_subset _

/-! ## A reader leaves -/

theorem Consistent.sub (h : r.Consistent) (hsame : SamePlan r r')
    (hslots : r'.slots.Sublist r.slots) : r'.Consistent := by
  refine ⟨?_, ?_, ?_, ?_, ?_, ?_, ?_⟩
  · exact fun slot hslot => (h.plans slot (hslots.subset hslot)).same hsame
  · intro slot hslot
    have hmem := hslots.subset hslot
    exact (h.flights slot hmem).ease (h.plans slot hmem) hsame (.refl slot)
  · exact fun slot hslot other hother =>
      h.apart slot (hslots.subset hslot) other (hslots.subset hother)
  · rw [hsame.pending]
    exact fun entry hentry => (h.pending entry hentry).same hsame
  · rw [hsame.failures, hsame.required]
    exact h.failures
  · intro key hheld
    rw [hsame.windows] at hheld
    refine le_trans ?_ (h.sole key hheld)
    rw [owners, hsame.pending]
    exact Nat.add_le_add_right hslots.countP_le _
  · rw [hsame.continuation, hsame.windows]
    exact h.continued

theorem samePlan_leave (slot : Slot K) : SamePlan r (r.leave slot) :=
  ⟨rfl, rfl, rfl, rfl, rfl, rfl, rfl, rfl, fun _ _ => rfl⟩

theorem Reserves.leave (h : r.Reserves) (slot : Slot K) : (r.leave slot).Reserves := by
  refine h.ease rfl (fun other hother => ⟨other, (sublist_leave slot).subset hother, .refl other⟩) ?_
  intro frame hframe
  exact contains_unkept (r := (r.removeSlot slot.id).release slot.discarding) slot.key slot.retained frame ▸ hframe

theorem Sound.leave (h : r.Sound) (slot : Slot K) : (r.leave slot).Sound := by
  refine ⟨h.base.sub (samePlan_leave slot) (sublist_leave slot), h.reserves.leave slot, ?_⟩
  intro other hother
  exact (h.stale other ((sublist_leave slot).subset hother)).ease (samePlan_leave slot) (.refl other)

/-! ## Starting a decode -/

/-- Nobody else decodes the time, the reader's plan has it, and a required time that it passes has a
result. -/
structure Starts (r : Readers K F E) (slot : Slot K) (time : ℤ) (required : Bool) : Prop where
  free : ∀ other ∈ r.slots, other.id ≠ slot.id → other.key = slot.key → other.state.flying ≠ some time
  planned : time ∈ slot.plan.required ∨ time ∈ slot.plan.lookahead
  window : ∀ window ∈ slot.plan.window, (time = window.2 ∧ ¬ r.resolved slot.key time) ∨
    (time ≠ window.2 ∧ r.resolved slot.key window.2)
  unreserved : required = false → ¬ r.reserved.contains (slot.key, time)

omit [DecidableEq K] in
/-- The first element of which a predicate holds is the head, or the predicate fails at the head. -/
theorem head_or_of_find? {α : Type} {p : α → Bool} {xs : List α} {x head : α}
    (hfind : xs.find? p = some x) (hhead : xs.head? = some head) : x = head ∨ ¬ p head := by
  cases xs with
  | nil => cases hhead
  | cons y xs =>
    obtain rfl := Option.some.inj hhead
    by_cases hp : p y
    · rw [find?_cons_of_pos hp] at hfind
      exact Or.inl (Option.some.inj hfind).symm
    · exact Or.inr hp

variable {slot : Slot K} {required : Bool}

theorem Starts.of_work [Weighed F] (h : r.Sound) (hslot : slot ∈ r.slots) {time : ℤ}
    (hwork : Work r slot (.ok (time, required)) r') :
    r.Starts slot time required := by
  have hplan := h.base.plans slot hslot
  cases hwork with
  | required hfirst hstart =>
    have hopen : ¬ r.resolved slot.key time := by simpa using find?_some hfirst
    have hreserved : r.reserved.contains (slot.key, time) := by
      simp only [startable, decide_eq_true_eq] at hstart
      exact hstart.1
    refine ⟨?_, Or.inl (mem_of_find?_eq_some hfirst), ?_, nofun⟩
    · intro other hother _ hkey
      exact (h.reserves _ hreserved).2 other hother hkey
    · intro window hwindow
      rcases head_or_of_find? hfirst (hplan.window window hwindow).1 with rfl | hdone
      · exact Or.inl ⟨rfl, hopen⟩
      · have hdone : r.resolved slot.key window.2 := by simpa using hdone
        refine Or.inr ⟨?_, hdone⟩
        rintro rfl
        exact hopen hdone
  | lookahead hrequired hnext hfits =>
    simp only [nextLookahead, Option.ite_none_left_eq_some] at hnext
    have hmem := mem_of_find?_eq_some hnext.2
    have htaken := find?_some hnext.2
    simp only [decide_eq_true_eq, not_or] at htaken
    obtain ⟨-, hopen, hfree⟩ := htaken
    refine ⟨?_, Or.inr hmem, ?_, ?_⟩
    · intro other hother hid hkey hflying
      refine hfree (any_eq_true.mpr ⟨other, hother, ?_⟩)
      simp [hkey, hflying, Ne.symm hid]
    · intro window hwindow
      have hdone := hrequired _ (hplan.end_mem hwindow)
      refine Or.inr ⟨?_, hdone⟩
      rintro rfl
      exact hopen hdone
    · intro _ hreserved
      exact hplan.ahead time hmem (h.reserves _ hreserved).1

omit [DecidableEq K] in
/-- The reader's last job is settled before it starts. -/
theorem Starts.back (hnodup : (r.slots.map Slot.id).Nodup) {time : ℤ}
    (hslot : r.slot? slot.id = some slot) (h : r.Starts slot time required) :
    (r.updateSlot slot.id Slot.back).Starts slot.back time required := by
  have hplan : slot.back.plan = slot.plan := by
    unfold Slot.back
    split <;> rfl
  refine ⟨?_, hplan ▸ h.planned, ?_, ?_⟩
  · intro other hother hne hkey
    rw [back_id] at hne
    rw [back_key] at hkey
    rcases (mem_updateSlots hnodup hslot).mp hother with rfl | ⟨hmem, hid⟩
    · exact absurd (back_id slot) hne
    · exact h.free other hmem hid hkey
  · rw [hplan, back_key]
    exact h.window
  · rw [back_key]
    exact h.unreserved

omit [DecidableEq K] in
theorem samePlan_reserve (bytes most : ℕ) : SamePlan r (r.reserve bytes most).2 := by
  unfold reserve
  split
  · exact ⟨rfl, rfl, rfl, rfl, rfl, rfl, rfl, rfl, fun _ _ => rfl⟩
  · exact .refl r

omit [DecidableEq K] in
theorem reserve_slots (bytes most : ℕ) : (r.reserve bytes most).2.slots = r.slots := by
  unfold reserve
  split <;> rfl

omit [DecidableEq K] in
theorem reserve_reserved (bytes most : ℕ) : (r.reserve bytes most).2.reserved = r.reserved := by
  unfold reserve
  split <;> rfl

/-- What a decode changes: the slot of its reader, and the reservation of a required frame. -/
theorem decode_changes (hslot : r.slot? id = some slot) (time : ℤ) (required : Bool) :
    SamePlan r (r.decode id time required).2 ∧ (∃ bytes resident, (r.decode id time required).2.slots
        = updateSlots r.slots id fun slot => slot.decode time bytes resident) ∧
      ∀ frame, (r.decode id time required).2.reserved.contains frame →
        r.reserved.contains frame ∧ (required → frame ≠ (slot.key, time)) := by
  unfold decode
  rw [hslot]
  cases required with
  | true =>
    refine ⟨⟨rfl, rfl, rfl, rfl, rfl, rfl, rfl, rfl, fun _ _ => rfl⟩, ⟨_, _, rfl⟩, ?_⟩
    intro frame hframe
    have herased : (r.reserved.erase (slot.key, time)).contains frame := by
      rwa [contains_unkept] at hframe
    obtain ⟨hne, hreserved⟩ := contains_of_erase herased
    exact ⟨hreserved, fun _ => hne⟩
  | false =>
    have hsame := samePlan_reserve (r := r) ((r.sizes.get? slot.key).getD 0) r.budget
    refine ⟨⟨hsame.version, hsame.limit, hsame.nextId, hsame.required, hsame.continuation,
      hsame.pending, hsame.windows, hsame.failures, hsame.rings⟩,
      ⟨(r.sizes.get? slot.key).getD 0 + slot.discarding, fun t =>
        (r.reserve ((r.sizes.get? slot.key).getD 0) r.budget).2.rings.contains (slot.key, t), ?_⟩,
      ?_⟩
    · show updateSlots (r.reserve ((r.sizes.get? slot.key).getD 0) r.budget).2.slots id _ = _
      rw [reserve_slots]
      rfl
    · intro frame hframe
      rw [contains_unkept] at hframe
      refine ⟨?_, nofun⟩
      have hreserved : (r.reserve ((r.sizes.get? slot.key).getD 0) r.budget).2.reserved.contains
          frame := hframe
      rwa [reserve_reserved] at hreserved

/-- A reader that starts a decode keeps its plan. -/
theorem Kept.decode (h : r.Kept limit) (hslot : r.slot? slot.id = some slot) (time : ℤ)
    (required : Bool) : (r.decode slot.id time required).2.Kept limit := by
  obtain ⟨hsame, ⟨bytes, resident, hslots⟩, -⟩ := decode_changes hslot time required
  refine h.carry (hsame.carries ?_)
  rw [hslots]
  exact forall₂_updateSlots .refl fun _ _ => ⟨rfl, nofun⟩

/-- A reader that starts a decode flies it alone, and its reservation is gone. -/
theorem Sound.decode (h : r.Sound) (hkept : r.Kept limit) (hslot : r.slot? slot.id = some slot)
    {time : ℤ} (hstarts : r.Starts slot time required) :
    (r.decode slot.id time required).2.Sound := by
  obtain ⟨hsame, ⟨bytes, resident, hslots⟩, hreserved⟩ := decode_changes hslot time required
  set r' := (r.decode slot.id time required).2
  have hmem := slot?_mem hslot
  have hplan := h.base.plans slot hmem
  -- every slot afterwards is the one that decodes, or one of another reader
  have hcases : ∀ other ∈ r'.slots, other = slot.decode time bytes resident ∨
      other ∈ r.slots ∧ other.id ≠ slot.id := by
    intro other hother
    rw [hslots] at hother
    exact (mem_updateSlots hkept.nodup hslot).mp hother
  have hprofile : r'.slots.map Slot.profile = r.slots.map Slot.profile := by
    rw [hslots]
    exact map_eq_of_forall₂ (forall₂_updateSlots (R := fun slot slot' =>
      slot'.profile = slot.profile) (fun _ => rfl) fun _ _ => rfl) fun _ _ heq => heq
  refine ⟨h.base.of_profile hsame hprofile ?_ ?_, ?_, ?_⟩
  · intro other hother
    rcases hcases other hother with rfl | ⟨hold, -⟩
    · refine ⟨?_, ?_, ?_⟩
      · intro time' version hstate
        obtain ⟨-, rfl⟩ := decoding.inj hstate
        rw [hsame.version, hkept.plans slot hmem]
      · intro time' hstate
        obtain ⟨rfl, -⟩ := decoding.inj hstate
        exact hstarts.planned
      · intro time' hstate window hwindow
        obtain ⟨rfl, -⟩ := decoding.inj hstate
        have hend := hplan.planned _ (hplan.end_mem hwindow)
        rcases hstarts.window window hwindow with ⟨rfl, hopen⟩ | ⟨hne, hdone⟩
        · rw [← hsame.resolved hend] at hopen
          exact Or.inl ⟨rfl, hopen⟩
        · rw [← hsame.resolved hend] at hdone
          exact Or.inr ⟨hne, hdone⟩
    · exact (h.base.flights other hold).ease (h.base.plans other hold) hsame (.refl other)
  · intro one hone two htwo hkey time' hflying hflying'
    rcases hcases one hone with rfl | ⟨hold, hid⟩
    · rcases hcases two htwo with rfl | ⟨hold', hid'⟩
      · rfl
      · obtain rfl := Option.some.inj hflying
        exact absurd hflying' (hstarts.free two hold' hid' hkey.symm)
    · rcases hcases two htwo with rfl | ⟨hold', hid'⟩
      · obtain rfl := Option.some.inj hflying'
        exact absurd hflying (hstarts.free one hold hid hkey)
      · exact h.base.apart one hold two hold' hkey time' hflying hflying'
  · intro frame hframe
    obtain ⟨hold, hne⟩ := hreserved frame hframe
    obtain ⟨hrequired, hfree⟩ := h.reserves frame hold
    refine ⟨hsame.required ▸ hrequired, ?_⟩
    intro other hother hkey hflying
    rcases hcases other hother with rfl | ⟨hmem', -⟩
    · have hframe' : frame = (slot.key, time) := Prod.ext hkey.symm (Option.some.inj hflying).symm
      rcases required with _ | _
      · exact hstarts.unreserved rfl (hframe' ▸ hold)
      · exact hne rfl hframe'
    · exact hfree other hmem' hkey hflying
  · intro other hother
    rcases hcases other hother with rfl | ⟨hold, -⟩
    · intro time' version hstate hstale
      exact absurd (decoding.inj hstate).2.symm hstale
    · exact (h.stale other hold).ease hsame (.refl other)

/-! ## The next step -/

omit [DecidableEq K] in
theorem eases_back (slot : Slot K) : slot.Eases slot.back := by
  unfold Slot.back
  split
  · exact ⟨rfl, Or.inl rfl, subset_rfl⟩
  · exact .refl slot

/-- `work_for` and the end of the reader's last job change no plan. -/
theorem lightens_work [Weighed F] {work : Except Bool (ℤ × Bool)} (hwork : Work r slot work r') :
    Lightens r (r'.updateSlot slot.id Slot.back) := by
  have hworked : Lightens r r' := by
    cases hwork with
    | starved =>
      unfold starve
      split
      · exact lightens_same (.refl r) rfl fun _ hframe => hframe
      · exact lightens_same ⟨rfl, rfl, rfl, rfl, rfl, rfl, rfl, rfl, fun _ _ => rfl⟩ rfl
          fun _ hframe => hframe
    | _ => exact lightens_same (.refl r) rfl fun _ hframe => hframe
  refine hworked.trans (lightens_updateSlot fun found _ => ⟨eases_back found, ?_, ?_⟩)
  · exact (eases_back found).profile
  · intro hleft
    refine Or.inl ?_
    rw [← hleft]
    unfold Slot.back
    split <;> rfl

/-- While the lane runs, a reader's step changes no plan, or it starts the decode that was found. -/
theorem Stepped.lightens [Weighed F] {now : ℕ} {work : Except Bool (ℤ × Bool)} {step : Next}
    (hslot : r.slot? slot.id = some slot.back)
    (hstep : Stepped r slot.id slot now false work step r') :
    Lightens r r' ∨ ∃ time required, work = .ok (time, required) ∧ r' = (r.decode slot.id time required).2 := by
  have hstate : slot.back.state = slot.state := by
    unfold Slot.back
    split <;> rfl
  cases hstep with
  | leave hleave =>
    refine Or.inl (lightens_updateSlot fun found hfound => ?_)
    obtain rfl := Option.some.inj (hslot.symm.trans hfound)
    refine ⟨⟨rfl, Or.inr rfl, subset_rfl⟩, rfl, fun _ => Or.inl ?_⟩
    rw [hstate]
    exact hleave.resolve_left Bool.false_ne_true
  | queue hstay hthreads =>
    exact Or.inl (lightens_updateSlot fun _ _ => ⟨⟨rfl, Or.inr rfl, subset_rfl⟩, rfl, nofun⟩)
  | close hstay hthreads => exact Or.inl (lightens_same (.refl r) rfl fun _ hframe => hframe)
  | decode hstay hthreads => exact Or.inr ⟨_, _, rfl, rfl⟩
  | dispatch hstay hdiscard =>
    exact Or.inl (lightens_updateSlot fun _ _ =>
      ⟨⟨rfl, Or.inl rfl, subset_rfl⟩, rfl, fun hleft => Or.inl hleft⟩)
  | rest hstay hdiscard hquiet =>
    refine Or.inl (lightens_updateSlot fun found hfound => ?_)
    obtain rfl := Option.some.inj (hslot.symm.trans hfound)
    refine ⟨⟨rfl, Or.inr rfl, subset_rfl⟩, rfl, fun _ => Or.inr ?_⟩
    have hplan : slot.back.plan = slot.plan := (eases_back slot).plan
    rcases hquiet with hobsolete | hquiet
    · -- an obsolete plan requires nothing
      have hnone : slot.plan.required = [] := by
        simp only [Slot.obsolete, Bool.and_eq_true, List.isEmpty_iff] at hobsolete
        exact hobsolete.1
      rw [hplan, hnone]
      exact fun _ htime => absurd htime not_mem_nil
    · -- a quiet one has every result
      intro time htime _
      rw [Readers.owed, hslot] at hquiet
      by_contra hopen
      exact hquiet (any_eq_true.mpr ⟨time, htime, by simpa using hopen⟩)
  | wait hstay hdiscard hwait =>
    refine Or.inl (lightens_updateSlot fun _ _ => ⟨⟨rfl, Or.inr ?_, subset_rfl⟩, rfl, ?_⟩)
    · rcases hwait with rfl | rfl <;> rfl
    · rcases hwait with rfl | rfl <;> nofun

/-- What `next` does while the lane runs: nothing to the plans, or the decode that it found. -/
theorem next_changes [Weighed F] (hslot : r.slot? id = some slot) (now : ℕ) :
    Lightens r (r.next id now false).2 ∨ ∃ time required, r.workFor id = (.ok (time, required), r) ∧
        (r.updateSlot id Slot.back).slot? id = some slot.back ∧
        (r.next id now false).2 = ((r.updateSlot id Slot.back).decode id time required).2 := by
  obtain rfl := slot?_id hslot
  have hwork := work_workFor hslot
  have hback : ((r.workFor slot.id).2.updateSlot slot.id Slot.back).slot? slot.id
      = some slot.back := by
    have hworked : (r.workFor slot.id).2.slot? slot.id = some slot := by
      rw [slot?, hwork.slots_eq]
      exact hslot
    rw [slot?_updateSlot back_id, if_pos rfl, hworked]
    rfl
  rcases Stepped.lightens hback (stepped_next hslot now false) with hlightens | ⟨time, required, hok, heq⟩
  · exact Or.inl ((lightens_work hwork).trans hlightens)
  · rw [hok] at hwork
    have hsame := hwork.eq_of_ok
    rw [hsame] at heq hback
    exact Or.inr ⟨time, required, Prod.ext hok hsame, hback, heq⟩

theorem next_of_none [Weighed F] (hslot : r.slot? id = none) (now : ℕ) (shutdown : Bool) :
    r.next id now shutdown = (.retire, r) := by
  simp [Readers.next, Readers.workFor, hslot]

/-- `next` loses no required frame while the lane runs. -/
theorem Kept.next [Weighed F] (h : r.Kept limit) (id now : ℕ) : (r.next id now false).2.Kept limit := by
  rcases hslot : r.slot? id with _ | slot
  · rw [next_of_none hslot]
    exact h
  · rcases next_changes hslot now with hlightens | ⟨time, required, hok, hback, heq⟩
    · exact h.lighten hlightens
    · rw [heq]
      obtain rfl := slot?_id hslot
      have hwork := work_workFor hslot
      rw [hok] at hwork
      have hslot' := slot?_id hback
      rw [← hslot'] at hback ⊢
      exact (h.lighten (hslot' ▸ lightens_work hwork)).decode hback time required

/-- `next` keeps the plans sound while the lane runs. -/
theorem Sound.next [Weighed F] (h : r.Sound) (hkept : r.Kept limit) (id now : ℕ) : (r.next id now false).2.Sound := by
  rcases hslot : r.slot? id with _ | slot
  · rw [next_of_none hslot]
    exact h
  · rcases next_changes hslot now with hlightens | ⟨time, required, hok, hback, heq⟩
    · exact h.lighten hlightens
    · rw [heq]
      obtain rfl := slot?_id hslot
      have hwork := work_workFor hslot
      rw [hok] at hwork
      have hlightens : Lightens r (r.updateSlot slot.id Slot.back) := lightens_work hwork
      have hstarts := (Starts.of_work h (slot?_mem hslot) hwork).back hkept.nodup hslot
      have hslot' : slot.back.id = slot.id := back_id slot
      rw [← hslot'] at hback hlightens hstarts ⊢
      exact (h.lighten hlightens).decode (hkept.lighten hlightens) hback hstarts

end Readers

end Kinewright.Media
