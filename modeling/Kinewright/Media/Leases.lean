import Kinewright.Media.Ledger
import Kinewright.Media.Posting

/-!
# What the calls do to leases

A reader's lease is its permits and its state. A post starts readers without permits and retires
some; it changes no reader's permits. A reader's own calls change no other reader's lease, and only
`next` sends a reader to wait for permits.
-/

namespace Kinewright.Media

open List

variable {K F E : Type}

/-- What the permits of a reader depend on. -/
def Slot.lease (slot : Slot K) : ℕ × ℕ × ReaderState := (slot.id, slot.threads, slot.state)

/-- The reader has the same permits afterwards, and it is where it was or retires. -/
structure Slot.Leased (slot slot' : Slot K) : Prop where
  id : slot'.id = slot.id
  threads : slot'.threads = slot.threads
  state : slot'.state = slot.state ∨ slot'.state = .retiring

/-- A reader that is not this one is where it was, and this one does not start to wait for
permits. -/
structure Slot.Moved (id : ℕ) (slot slot' : Slot K) : Prop where
  id_eq : slot'.id = slot.id
  threads : slot'.threads = slot.threads
  other : slot.id ≠ id → slot'.state = slot.state
  waits : slot'.state = .permitWait → slot.state = .permitWait

theorem Slot.Leased.refl (slot : Slot K) : slot.Leased slot := ⟨rfl, rfl, .inl rfl⟩

theorem Slot.Leased.of_lease {slot slot' : Slot K} (h : slot'.lease = slot.lease) : slot.Leased slot' := by
  obtain ⟨hid, hrest⟩ := Prod.mk.inj h
  obtain ⟨hthreads, hstate⟩ := Prod.mk.inj hrest
  exact ⟨hid, hthreads, .inl hstate⟩

theorem Slot.Leased.trans {one two three : Slot K} (h : one.Leased two) (h' : two.Leased three) :
    one.Leased three where
  id := h'.id.trans h.id
  threads := h'.threads.trans h.threads
  state := by
    rcases h'.state with heq | hretired
    · rw [heq]
      exact h.state
    · exact .inr hretired

theorem Slot.Moved.refl (id : ℕ) (slot : Slot K) : slot.Moved id slot := ⟨rfl, rfl, fun _ => rfl, fun h => h⟩

theorem Slot.Moved.trans {id : ℕ} {one two three : Slot K} (h : one.Moved id two)
    (h' : two.Moved id three) : one.Moved id three where
  id_eq := h'.id_eq.trans h.id_eq
  threads := h'.threads.trans h.threads
  other := fun hne => (h'.other (h.id_eq ▸ hne)).trans (h.other hne)
  waits := h.waits ∘ h'.waits

namespace Readers

variable [DecidableEq K] {r r' r'' : Readers K F E}

/-! ## Posts -/

/-- Every reader has the lease that it had. -/
structure SameLeases (r r' : Readers K F E) : Prop where
  nextId : r'.nextId = r.nextId
  slots : r'.slots.map Slot.lease = r.slots.map Slot.lease

omit [DecidableEq K] in
theorem SameLeases.trans (h : SameLeases r r') (h' : SameLeases r' r'') : SameLeases r r'' :=
  ⟨h'.nextId.trans h.nextId, h'.slots.trans h.slots⟩

omit [DecidableEq K] in
theorem map_lease_threadSlots {σ : Type} {f : σ → Slot K → σ × Slot K}
    (hf : ∀ s slot, (f s slot).2.lease = slot.lease) (s : σ) (slots : List (Slot K)) :
    (threadSlots f s slots).2.map Slot.lease = slots.map Slot.lease :=
  map_eq_of_forall₂ (forall₂_threadSlots (R := fun slot slot' => slot'.lease = slot.lease) hf s slots)
    fun _ _ h => h

variable {f : Slot K → Slot K}

omit [DecidableEq K] in
theorem map_lease_updateSlots (hf : ∀ slot, (f slot).lease = slot.lease) (slots : List (Slot K)) (id : ℕ) :
    (updateSlots slots id f).map Slot.lease = slots.map Slot.lease :=
  map_eq_of_forall₂ (forall₂_updateSlots (R := fun slot slot' => slot'.lease = slot.lease)
    (fun _ => rfl) fun slot _ => hf slot) fun _ _ h => h

theorem sameLeases_discardOutside (keep : KeyedMap K (ℤ × ℤ)) : SameLeases r (r.discardOutside keep) := by
  refine ⟨rfl, map_lease_threadSlots ?_ r.reserved r.slots⟩
  intro reserved slot
  unfold discardOutsideSlot
  split
  · rfl
  · split
    · rfl
    · rfl

theorem sameLeases_handOff (detached : List ℕ) : SameLeases r (r.handOff detached) := by
  refine ⟨rfl, map_lease_threadSlots ?_ (r.reserved, ∅) r.slots⟩
  intro s slot
  unfold handOffSlot
  split
  · rfl
  · rfl

theorem sameLeases_placeRegions (keepers : List (ℕ × ℕ)) (r : Readers K F E) (index : ℕ)
    (regions : List (K × Region × Option (List ℤ))) :
    SameLeases r (placeRegions keepers r index regions) := by
  induction regions generalizing r index with
  | nil => exact ⟨rfl, rfl⟩
  | cons entry regions ih =>
    rw [placeRegions_cons]
    refine SameLeases.trans ?_ (ih _ (index + 1))
    unfold placeRegion
    split
    · refine ⟨rfl, ?_⟩
      apply map_lease_updateSlots
      intro slot
      rfl
    · exact ⟨rfl, rfl⟩

theorem sameLeases_readied {regions : List (K × Region)} {sizes : KeyedMap K ℕ} {generated : ℕ}
    {detached : List ℕ} : SameLeases r (r.readied regions sizes generated detached) := by
  have hdiscard := sameLeases_discardOutside (r := (r.announce regions sizes
    generated).joinContinuation (r.continuedFor regions sizes generated detached))
    ((r.announce regions sizes generated).fitted regions detached).2
  refine ⟨rfl, Eq.trans ?_ hdiscard.slots⟩
  show (List.map _ _).map Slot.lease = _
  rw [map_map]
  rfl

/-- Every reader keeps its permits, and perhaps some retire. -/
structure Retires (r r' : Readers K F E) : Prop where
  nextId : r'.nextId = r.nextId
  slots : List.Forall₂ Slot.Leased r.slots r'.slots

omit [DecidableEq K] in
theorem SameLeases.retires (h : SameLeases r r') : Retires r r' := by
  refine ⟨h.nextId, ?_⟩
  have hrelated : List.Forall₂ (fun a b : ℕ × ℕ × ReaderState => b = a) (r.slots.map Slot.lease)
      (r'.slots.map Slot.lease) := by
    rw [h.slots]
    exact forall₂_same.mpr fun _ _ => rfl
  rw [forall₂_map_left_iff, forall₂_map_right_iff] at hrelated
  exact hrelated.imp fun _ _ => .of_lease

omit [DecidableEq K] in
theorem retires_map (hf : ∀ slot : Slot K, slot.Leased (f slot)) (hnextId : r'.nextId = r.nextId)
    (hslots : r'.slots = r.slots.map f) : Retires r r' := by
  refine ⟨hnextId, ?_⟩
  rw [hslots, forall₂_map_right_iff]
  exact forall₂_same.mpr fun slot _ => hf slot

omit [DecidableEq K] in
theorem retires_of_eq (hnextId : r'.nextId = r.nextId) (hslots : r'.slots = r.slots) : Retires r r' :=
  retires_map Slot.Leased.refl hnextId (hslots.trans (map_id' r.slots).symm)

omit [DecidableEq K] in
theorem Retires.trans (h : Retires r r') (h' : Retires r' r'') : Retires r r'' where
  nextId := h'.nextId.trans h.nextId
  slots := (forall₂_comp h.slots h'.slots).imp fun _ _ ⟨_, h, h'⟩ => h.trans h'

omit [DecidableEq K] in
theorem Retires.ids (h : Retires r r') : r'.slots.map Slot.id = r.slots.map Slot.id :=
  map_eq_of_forall₂ h.slots fun _ _ hleased => hleased.id

/-- The readers of before keep their permits, and new ones start without. -/
structure Begins (r r' : Readers K F E) (spawn : List ℕ) : Prop where
  fresh : ∃ n, spawn = List.range' r.nextId n ∧ r'.nextId = r.nextId + n
  ids : r'.slots.map Slot.id = r.slots.map Slot.id ++ spawn
  slots : ∀ slot' ∈ r'.slots, (∃ slot ∈ r.slots, slot.Leased slot') ∨
    slot'.id ∈ spawn ∧ slot'.threads = 0 ∧ slot'.state ≠ .permitWait

omit [DecidableEq K] in
theorem Retires.begins (h : Retires r r') : Begins r r' [] where
  fresh := ⟨0, rfl, h.nextId⟩
  ids := by rw [h.ids, append_nil]
  slots := by
    intro slot' hslot'
    exact .inl (mem_right_of_forall₂ h.slots hslot')

omit [DecidableEq K] in
theorem Begins.retires {spawn : List ℕ} (h : Begins r r' spawn) (h' : Retires r' r'') :
    Begins r r'' spawn where
  fresh := by
    rw [h'.nextId]
    exact h.fresh
  ids := by rw [h'.ids, h.ids]
  slots := by
    intro slot'' hslot''
    obtain ⟨slot', hslot', hleased⟩ := mem_right_of_forall₂ h'.slots hslot''
    rcases h.slots slot' hslot' with ⟨slot, hslot, hbefore⟩ | ⟨hid, hthreads, hstate⟩
    · exact .inl ⟨slot, hslot, hbefore.trans hleased⟩
    · refine .inr ⟨hleased.id ▸ hid, hleased.threads.trans hthreads, ?_⟩
      rcases hleased.state with heq | hretired
      · rwa [heq]
      · rw [hretired]
        nofun

omit [DecidableEq K] in
theorem Retires.then_begins {spawn : List ℕ} (h : Retires r r') (h' : Begins r' r'' spawn) :
    Begins r r'' spawn where
  fresh := h.nextId ▸ h'.fresh
  ids := by rw [h'.ids, h.ids]
  slots := by
    intro slot'' hslot''
    rcases h'.slots slot'' hslot'' with ⟨slot', hslot', hleased⟩ | hnew
    · obtain ⟨slot, hslot, hbefore⟩ := mem_right_of_forall₂ h.slots hslot'
      exact .inl ⟨slot, hslot, hbefore.trans hleased⟩
    · exact .inr hnew

/-- What the loop of `assign` starts. -/
theorem begins_startReaders (r : Readers K F E) (now : ℕ) (waiting : List (K × Region))
    (spawn : List (ℕ × K)) (regions : List (K × Region)) :
    ∃ started, (r.startReaders now waiting spawn regions).2.2.map Prod.fst = spawn.map Prod.fst ++ started ∧
      Begins r (r.startReaders now waiting spawn regions).1 started := by
  induction regions generalizing r waiting spawn with
  | nil => exact ⟨[], (append_nil _).symm, (retires_of_eq rfl rfl).begins⟩
  | cons entry regions ih =>
    obtain ⟨key, region⟩ := entry
    rw [startReaders]
    split
    · exact ih r _ spawn
    · obtain ⟨started, hspawn, hbegins⟩ := ih { r with
          slots := r.slots ++ [newSlot r.nextId key
            (planOf r.version region (r.windows.get? key) none) now]
          nextId := r.nextId + 1 } waiting (spawn ++ [(r.nextId, key)])
      obtain ⟨n, hstarted, hnextId⟩ := hbegins.fresh
      refine ⟨r.nextId :: started, by rw [hspawn]; simp, ⟨n + 1, ?_, ?_⟩, ?_, ?_⟩
      · rw [hstarted, range'_succ]
      · rw [hnextId]
        show r.nextId + 1 + n = r.nextId + (n + 1)
        omega
      · rw [hbegins.ids]
        simp [newSlot]
      · intro slot' hslot'
        rcases hbegins.slots slot' hslot' with ⟨slot, hslot, hleased⟩ | ⟨hid, hnew⟩
        · rcases mem_append.mp hslot with hold | hfresh
          · exact .inl ⟨slot, hold, hleased⟩
          · obtain rfl := mem_singleton.mp hfresh
            refine .inr ⟨?_, hleased.threads, ?_⟩
            · rw [hleased.id]
              exact mem_cons_self
            · rcases hleased.state with heq | hretired
              · rw [heq]
                rintro ⟨⟩
              · rw [hretired]
                rintro ⟨⟩
        · exact .inr ⟨mem_cons_of_mem _ hid, hnew⟩

omit [DecidableEq K] in
theorem leased_retireObsolete (slot : Slot K) : slot.Leased (retireObsolete slot) := by
  unfold retireObsolete
  split
  · split
    · exact ⟨rfl, rfl, .inr rfl⟩
    · exact .refl slot
  · exact .refl slot

theorem begins_assign (r : Readers K F E) (now : ℕ) :
    Begins r (r.assign now).2 ((r.assign now).1.spawn.map Prod.fst) := by
  obtain ⟨started, hspawn, hbegins⟩ := begins_startReaders r now [] [] r.pending
  have hids : (r.assign now).1.spawn.map Prod.fst = started := hspawn
  rw [hids]
  refine hbegins.retires ?_
  unfold assign
  dsimp only
  have hcancels (slot : Slot K) : slot.Leased
      (if cancels slot then { slot with cancelled := true } else slot) := by
    split
    · exact ⟨rfl, rfl, .inl rfl⟩
    · exact .refl slot
  split
  · exact retires_map hcancels rfl rfl
  · refine retires_map (fun slot => (leased_retireObsolete slot).trans (hcancels _)) rfl ?_
    show List.map _ (List.map _ _) = _
    rw [map_map]
    rfl

theorem begins_postWithin (regions : List (K × Region)) (sizes : KeyedMap K ℕ) (generated : ℕ)
    (detached : List ℕ) (now : ℕ) :
    Begins r (r.postWithin regions sizes generated detached now).2
      ((r.postWithin regions sizes generated detached now).1.spawn.map Prod.fst) := by
  have hplaced := sameLeases_readied.trans
    ((sameLeases_placeRegions (keepers (r.readied regions sizes generated detached).slots
      (joinRegions (r.continuedFor regions sizes generated detached) regions) detached)
      (r.readied regions sizes generated detached) 0
      (joinRegions (r.continuedFor regions sizes generated detached) regions)).trans (sameLeases_handOff detached))
  have hwant : SameLeases r (((r.readied regions sizes generated detached).placePlan regions
      (r.continuedFor regions sizes generated detached) detached).wantFor regions.length) :=
    hplaced.trans ⟨rfl, rfl⟩
  exact hwant.retires.then_begins (begins_assign _ now)

theorem begins_postPlanned (planned : Planned K) (sizes : KeyedMap K ℕ) (generated : ℕ) (detached : List ℕ) (now : ℕ) :
    Begins r (r.postPlanned planned sizes generated detached now).2
      ((r.postPlanned planned sizes generated detached now).1.spawn.map Prod.fst) := by
  unfold postPlanned
  generalize hr : ({ r with
    regionsMerged := r.regionsMerged + planned.merged
    regionsFolded := r.regionsFolded + planned.folded } : Readers K F E) = counted
  have hcounted : Retires r counted := hr ▸ retires_of_eq rfl rfl
  exact hcounted.then_begins (begins_postWithin planned.regions sizes generated detached now)

omit [DecidableEq K] in
theorem retires_adopt (bytes : ℕ) : Retires r (r.adopt bytes).2 := by
  unfold Readers.adopt Readers.reserve
  split
  · exact retires_of_eq rfl rfl
  · split
    all_goals exact retires_of_eq rfl rfl

omit [DecidableEq K] in
theorem retires_retireAll : Retires r r.retireAll :=
  retires_map (f := fun slot => { slot with state := .retiring }) (fun _ => ⟨rfl, rfl, .inr rfl⟩) rfl rfl

omit [DecidableEq K] in
theorem retires_forget (keep : K → Bool) : Retires r (r.forget keep).2 := by
  refine retires_map (f := fun slot => if keep slot.key then slot else
    { slot with
      state := .retiring
      cancelled := slot.cancelled || slot.state = .permitWait }) ?_ rfl rfl
  intro slot
  split
  · exact .refl slot
  · exact ⟨rfl, rfl, .inr rfl⟩

theorem Retires.evict [Weighed F] (h : Retires r r') (pinned : F → Bool) (need : ℕ)
    (victims : List (K × ℤ)) : Retires r (evict pinned r' need victims).2 := by
  induction victims generalizing r' need with
  | nil => exact h
  | cons victim victims ih =>
    rw [Readers.evict]
    split
    · exact h
    · split
      · exact ih h need
      · apply ih
        exact h.trans (retires_of_eq rfl rfl)

theorem retires_admitRequired [Weighed F] {generated : ℕ} {pinned : F → Bool}
    {victims : List (K × ℤ)} {result : Admission F × Readers K F E}
    (h : r.admitRequired generated pinned victims = some result) : Retires r result.2 := by
  unfold admitRequired at h
  dsimp only at h
  split at h
  · cases h
  · split at h
    · rename_i reserved hreserve
      obtain rfl := Option.some.inj h
      obtain rfl := (reserve_fits hreserve).2
      unfold Readers.reserve
      split
      all_goals exact retires_of_eq rfl rfl
    · obtain rfl := Option.some.inj h
      apply Retires.evict
      exact retires_of_eq rfl rfl

theorem begins_clearCache (now : ℕ) : Begins r (r.clearCache false now).2
    ((r.clearCache false now).1.2.spawn.map Prod.fst) := by
  have hposted : Begins r (r.post [] .empty 0 now).2 ((r.post [] .empty 0 now).1.spawn.map Prod.fst) :=
    begins_postWithin [] .empty 0 [] now
  rw [clearCache, if_neg Bool.false_ne_true]
  dsimp only
  exact hposted.retires (retires_forget _)

/-! ## A reader's own calls -/

/-- No reader but this one has moved. -/
structure Moves (id : ℕ) (r r' : Readers K F E) : Prop where
  nextId : r'.nextId = r.nextId
  slots : List.Forall₂ (Slot.Moved id) r.slots r'.slots

variable {id : ℕ}

omit [DecidableEq K] in
theorem Moves.refl (id : ℕ) (r : Readers K F E) : Moves id r r := ⟨rfl, forall₂_same.mpr fun slot _ => .refl id slot⟩

section

variable (h : Moves id r r')

include h

omit [DecidableEq K] in
theorem Moves.of_eq (hnextId : r''.nextId = r'.nextId) (hslots : r''.slots = r'.slots) : Moves id r r'' :=
  ⟨hnextId.trans h.nextId, hslots ▸ h.slots⟩

omit [DecidableEq K] in
theorem Moves.mapSlots (hf : ∀ slot, (f slot).lease = slot.lease)
    (hnextId : r''.nextId = r'.nextId) (hslots : r''.slots = r'.slots.map f) : Moves id r r'' := by
  refine ⟨hnextId.trans h.nextId, ?_⟩
  rw [hslots, forall₂_map_right_iff]
  refine h.slots.imp fun slot slot' hmoved => hmoved.trans ?_
  obtain ⟨hid, hrest⟩ := Prod.mk.inj (hf slot')
  obtain ⟨hthreads, hstate⟩ := Prod.mk.inj hrest
  exact ⟨hid, hthreads, fun _ => hstate, fun hwaits => hstate ▸ hwaits⟩

omit [DecidableEq K] in
theorem Moves.updateSlot (hf : ∀ slot, (f slot).id = slot.id ∧ (f slot).threads = slot.threads ∧
      ((f slot).state = .permitWait → slot.state = .permitWait)) :
    Moves id r (r'.updateSlot id f) := by
  refine ⟨h.nextId, ?_⟩
  have hchanged : List.Forall₂ (Slot.Moved id) r'.slots (updateSlots r'.slots id f) := by
    refine forall₂_updateSlots (Slot.Moved.refl id) ?_
    intro slot hfind
    obtain ⟨hid, hthreads, hwaits⟩ := hf slot
    have heq : slot.id = id := by simpa using find?_some hfind
    exact ⟨hid, hthreads, fun hne => absurd heq hne, hwaits⟩
  exact (forall₂_comp h.slots hchanged).imp fun _ _ ⟨_, hbefore, hafter⟩ => hbefore.trans hafter

theorem Moves.unkept (key : K) (times : Finset ℤ) : Moves id r (r'.unkept key times) := h.of_eq rfl rfl

theorem Moves.keepFrame (key : K) (time : ℤ) (frame : F) : Moves id r (r'.keepFrame key time frame).2 := by
  unfold Readers.keepFrame
  split
  · exact h.of_eq rfl rfl
  · exact h

theorem Moves.keepFailure (slot : Slot K) (time : ℤ) (version : ℕ)
    (error : E) : Moves id r (r'.keepFailure slot time version error).2 := by
  unfold Readers.keepFailure
  split
  · exact h.of_eq rfl rfl
  · exact h

end

theorem moves_deliver (id : ℕ) (time : ℤ) (version : ℕ) (result : Except E F) (now : ℕ) :
    Moves id r (r.deliver id time version result now).2 := by
  have h := Moves.refl id r
  unfold deliver
  split
  · exact h
  · exact h
  · split
    · refine h.updateSlot fun slot => ?_
      exact ⟨rfl, rfl, fun hwaits => hwaits⟩
    · refine Moves.keepFrame (h.updateSlot fun slot => ?_) _ _ _
      exact ⟨rfl, rfl, nofun⟩
  · split
    · refine Moves.unkept (h.updateSlot fun slot => ?_) _ _
      exact ⟨rfl, rfl, fun hwaits => hwaits⟩
    · refine Moves.keepFailure (Moves.unkept (h.updateSlot fun slot => ?_) _ _) _ _ _ _
      exact ⟨rfl, rfl, nofun⟩

theorem moves_stopped (id now : ℕ) : Moves id r (r.stopped id now) := by
  have h := Moves.refl id r
  unfold stopped
  split
  · exact h
  · refine Moves.unkept (h.updateSlot fun slot => ?_) _ _
    unfold Slot.stop
    rcases hstate : slot.state with _ | _ | _ | _ | _
    all_goals simp [hstate, Slot.bare]

theorem moves_refilledExact (id : ℕ) (t : ℤ) (version : ℕ) (keptFrom : Option ℤ)
    (kept : Finset ℤ) : Moves id r (r.refilledExact id t version keptFrom kept) := by
  unfold refilledExact
  split
  · exact .refl id r
  · rename_i slot hslot
    obtain rfl := slot?_id hslot
    have hkeep : Moves slot.id r (r.updateSlot slot.id fun slot => slot.keepOnly kept) := by
      refine (Moves.refl slot.id r).updateSlot fun slot => ?_
      exact ⟨rfl, rfl, fun hwaits => hwaits⟩
    split
    · exact .refl slot.id r
    · split
      · exact hkeep.unkept _ _
      · split
        · have hclip : Moves slot.id r ((r.updateSlot slot.id fun slot =>
              slot.keepOnly kept).updateSlot slot.id fun slot =>
                slot.clip (min (keptFrom.getD t) t)) := by
            refine hkeep.updateSlot fun slot => ?_
            exact ⟨rfl, rfl, fun hwaits => hwaits⟩
          exact hclip.of_eq rfl rfl
        · apply Moves.unkept
          have hsame (gone : Finset ℤ) (other : Slot K) :
              (if other.key = slot.key then other.shorten gone else other).lease = other.lease := by
            split
            · rfl
            · rfl
          exact hkeep.mapSlots (hsame _) rfl rfl

/-! ## `next` -/

omit [DecidableEq K] in
theorem Moves.retire (h : Moves id r r') : Moves id r (r'.retire id).2 := by
  refine h.updateSlot fun slot => ?_
  exact ⟨rfl, rfl, nofun⟩

theorem Moves.chargeDecode (h : Moves id r r') (key : K) (time : ℤ) (required : Bool) :
    Moves id r (r'.chargeDecode key time required).2 := by
  unfold Readers.chargeDecode
  split
  · exact h.of_eq rfl rfl
  · dsimp only
    unfold Readers.reserve
    split
    · exact h.of_eq rfl rfl
    · exact h

theorem Moves.decode (h : Moves id r r') (time : ℤ) (required : Bool) : Moves id r (r'.decode id time required).2 := by
  unfold Readers.decode
  split
  · exact h
  · rename_i slot hslot
    have hcharge := h.chargeDecode slot.key time required
    generalize r'.chargeDecode slot.key time required = charged at hcharge ⊢
    obtain ⟨bytes, r₁⟩ := charged
    have hdecode : Moves id r (r₁.updateSlot id fun s => s.decode time (bytes + slot.discarding)
        fun t => r₁.rings.contains (slot.key, t)) := by
      refine hcharge.updateSlot fun slot => ?_
      exact ⟨rfl, rfl, nofun⟩
    exact hdecode.of_eq rfl rfl

variable [Weighed F]

/-- What `next` does to leases: it sends the reader to wait for permits, or no reader waits that
did not. -/
theorem next_leases {slot : Slot K} (hslot : r.slot? id = some slot) (now : ℕ) (shutdown : Bool) :
    (∃ want, (r.next id now shutdown).1 = .openFor want ∧ slot.threads = 0 ∧ ∃ r₀, Moves id r r₀ ∧
        (r.next id now shutdown).2 = r₀.updateSlot id fun slot => { slot with state := .permitWait }) ∨
    (∀ want, (r.next id now shutdown).1 ≠ .openFor want) ∧ Moves id r (r.next id now shutdown).2 := by
  have hback : Moves id r ((r.workFor id).2.updateSlot id Slot.back) := by
    have hwork := work_workFor hslot
    refine Moves.updateSlot ((Moves.refl id r).of_eq hwork.nextId_eq hwork.slots_eq) fun slot => ?_
    unfold Slot.back
    split
    all_goals exact ⟨rfl, rfl, fun hwaits => hwaits⟩
  have hstep := stepped_next hslot now shutdown
  generalize (r.workFor id).2.updateSlot id Slot.back = r₀ at hback hstep
  generalize (r.workFor id).1 = work at hstep
  generalize r.next id now shutdown = result at hstep ⊢
  obtain ⟨told, r₁⟩ := result
  dsimp only at hstep ⊢
  cases hstep with
  | leave | rest => exact .inr ⟨nofun, hback.retire⟩
  | queue hstay hthreads => exact .inl ⟨_, rfl, hthreads, r₀, hback, rfl⟩
  | close => exact .inr ⟨nofun, hback⟩
  | decode =>
    refine .inr ⟨?_, hback.decode _ _⟩
    unfold Readers.decode
    split
    · nofun
    · nofun
  | dispatch =>
    refine .inr ⟨nofun, hback.updateSlot fun slot => ?_⟩
    exact ⟨rfl, rfl, fun hwaits => hwaits⟩
  | wait hstay hdiscard hstate =>
    refine .inr ⟨nofun, hback.updateSlot fun slot => ⟨rfl, rfl, ?_⟩⟩
    rcases hstate with rfl | rfl
    · nofun
    · nofun

end Readers

end Kinewright.Media
