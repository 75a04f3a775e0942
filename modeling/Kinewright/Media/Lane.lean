import Kinewright.Media.Book
import Kinewright.Media.Leases

/-!
# The book and the slots agree

Where a reader's thread is between two critical sections says what the book has of it and what its
slot says. Every event of the lane keeps this, in every order, and a reader that exited stays away.
-/

namespace Kinewright.Media

open List
open Readers hiding next

/-! ## The lane -/

variable {K F E : Type}

/-- The readers that an answer tells to start. -/
def Answer.starts : Answer K F E → List ℕ
  | .posted outcome | .forgot _ outcome => outcome.spawn.map Prod.fst
  | .done | .next _ | .delivered _ _ | .admission _ | .adopted _ _ | .frames _ => []

/-- What a slot says, where its reader's thread is. -/
structure Slot.Sits (slot : Slot K) (phase : Phase) : Prop where
  here : phase ≠ .absent
  asked : slot.state = .permitWait → phase.asks
  waits : phase.asks → slot.state = .permitWait ∨ slot.state = .retiring

/-- A slot that changes its state, at most to retire, sits where it sat. -/
theorem Slot.Leased.sits {slot slot' : Slot K} {phase : Phase} (h : slot.Leased slot')
    (hsits : slot.Sits phase) : slot'.Sits phase where
  here := hsits.here
  asked := by
    intro hstate
    rcases h.state with heq | hretired
    · exact hsits.asked (heq ▸ hstate)
    · rw [hretired] at hstate
      cases hstate
  waits := by
    intro hasks
    rcases h.state with heq | hretired
    · rw [heq]
      exact hsits.waits hasks
    · exact .inr hretired

/-- A slot of a thread that does not ask for permits. -/
theorem Slot.Sits.of_not_asks {slot : Slot K} {phase : Phase} (hhere : phase ≠ .absent)
    (hasks : phase.asks = false) (hstate : slot.state ≠ .permitWait) : slot.Sits phase where
  here := hhere
  asked := fun hwaits => absurd hwaits hstate
  waits := fun h => nomatch hasks.symm.trans h

/-- The agreement of the two records, and of each with where the threads are. -/
structure Lane.Agree (l : Lane K F E) : Prop where
  fresh : ∀ id, l.readers.nextId ≤ id → l.phase id = .absent
  nodup : (l.readers.slots.map Slot.id).Nodup
  seated : ∀ id, (l.phase id).seated → id ∈ l.readers.slots.map Slot.id
  sits : ∀ slot ∈ l.readers.slots, slot.Sits (l.phase slot.id)
  threads : ∀ slot ∈ l.readers.slots, (l.phase slot.id).settled → slot.threads = l.book.heldBy slot.id
  entries : ∀ id, l.book.Has id (l.phase id)
  fits : l.book.Fits
  ordered : l.book.Ordered l.log

namespace Lane

variable {l l' : Lane K F E} {id : ℕ} {phase : Phase}

@[simp] theorem moveTo_phase (l : Lane K F E) (id : ℕ) (phase : Phase) (id' : ℕ) :
    (l.moveTo id phase).phase id' = if id' = id then phase else l.phase id' := rfl

@[simp] theorem moveTo_moveTo (l : Lane K F E) (id : ℕ) (phase phase' : Phase) :
    (l.moveTo id phase).moveTo id phase' = l.moveTo id phase' := by
  unfold moveTo
  congr 1
  funext id'
  dsimp only
  split
  · rfl
  · rfl

theorem moveTo_self (h : l.phase id = phase) : l.moveTo id phase = l := by
  have hsame : (fun id' => if id' = id then phase else l.phase id') = l.phase := by
    funext id'
    split
    · rename_i heq
      rw [heq, h]
    · rfl
  rw [moveTo, hsame]

theorem agree_new (parallelism budget : ℕ) :
    Agree (new parallelism budget : Lane K F E) where
  fresh := fun _ _ => rfl
  nodup := nodup_nil
  seated := fun _ hseated => absurd hseated Bool.false_ne_true
  sits := fun _ hslot => absurd hslot not_mem_nil
  threads := fun _ hslot => absurd hslot not_mem_nil
  entries := by
    intro reader
    refine ⟨fun _ => rfl, ?_, ?_, ?_, ?_⟩
    · rintro permits ⟨⟩
    · exact iff_of_false not_mem_nil Bool.false_ne_true
    · exact iff_of_false (Finset.notMem_empty reader) Bool.false_ne_true
    · exact fun hcancelled => absurd hcancelled (Finset.notMem_empty reader)
  fits := by
    refine ⟨fun _ hticket => absurd hticket not_mem_nil, ?_, ?_⟩
    · rintro reader permits ⟨⟩
    · exact Nat.zero_le _
  ordered := rfl

/-! ### Readers that exited -/

/-- The reader has been started, and it has exited. -/
structure Departed (l : Lane K F E) (id : ℕ) : Prop where
  absent : l.phase id = .absent
  older : id < l.readers.nextId

/-- The agreement holds afterwards, and no reader that exited comes back. -/
structure Keeps (l l' : Lane K F E) : Prop where
  agree : l'.Agree
  departed : ∀ id, l.Departed id → l'.Departed id

theorem Keeps.trans {l'' : Lane K F E} (h : l.Keeps l') (h' : l'.Keeps l'') : l.Keeps l'' :=
  ⟨h'.agree, fun id hid => h'.departed id (h.departed id hid)⟩

theorem Agree.keeps_refl (h : l.Agree) : l.Keeps l := ⟨h, fun _ hid => hid⟩

/-- Another reader's thread goes on. -/
theorem Departed.moveTo (h : l.Departed id) {other : ℕ} {readers : Readers K F E}
    {book : PermitBook} {log : List (Fifo.Event ℕ)} (hother : l.phase other ≠ .absent)
    (hnextId : readers.nextId = l.readers.nextId) :
    Departed ({ l with readers, book, log }.moveTo other phase) id where
  absent := by
    rw [moveTo_phase, if_neg]
    · exact h.absent
    · rintro rfl
      exact hother h.absent
  older := hnextId ▸ h.older

/-! ### Events of the book -/

section

variable (h : l.Agree)

include h

/-- The book changes for one reader, and its thread goes on. -/
theorem Agree.turn {book : PermitBook} {log : List (Fifo.Event ℕ)}
    (hseated : phase.seated = (l.phase id).seated) (hasks : phase.asks = (l.phase id).asks)
    (hhere : l.phase id ≠ .absent) (hhere' : phase ≠ .absent)
    (hsettled : phase.settled → (l.phase id).settled ∧ book.held.get? id = l.book.held.get? id)
    (hheld : ∀ other, other ≠ id → book.held.get? other = l.book.held.get? other)
    (hhas : book.Has id phase)
    (hothers : ∀ other, other ≠ id → book.Has other (l.phase other)) (hfits : book.Fits)
    (hordered : book.Ordered log) : l.Keeps ({ l with book, log }.moveTo id phase) := by
  refine ⟨⟨?_, h.nodup, ?_, ?_, ?_, ?_, hfits, hordered⟩, fun _ hgone => hgone.moveTo hhere rfl⟩
  · intro other hother
    have hfresh := h.fresh other hother
    rw [moveTo_phase, if_neg]
    · exact hfresh
    · rintro rfl
      exact hhere hfresh
  · intro other hother
    rw [moveTo_phase] at hother
    apply h.seated
    split at hother
    · rename_i heq
      rw [heq, ← hseated]
      exact hother
    · exact hother
  · intro slot hslot
    rw [moveTo_phase]
    have hsits := h.sits slot hslot
    split
    · rename_i heq
      rw [heq] at hsits
      exact ⟨hhere', fun hstate => hasks ▸ hsits.asked hstate, fun h => hsits.waits (hasks ▸ h)⟩
    · exact hsits
  · intro slot hslot hslotSettled
    rw [moveTo_phase] at hslotSettled
    show slot.threads = (book.held.get? slot.id).getD 0
    have hthreads := h.threads slot hslot
    split at hslotSettled
    · rename_i heq
      rw [heq] at hthreads ⊢
      obtain ⟨hbefore, hsame⟩ := hsettled hslotSettled
      rw [hsame]
      exact hthreads hbefore
    · rename_i hne
      rw [hheld _ hne]
      exact hthreads hslotSettled
  · intro other
    rw [moveTo_phase]
    split
    · rename_i heq
      rw [heq]
      exact hhas
    · rename_i hne
      exact hothers other hne

theorem Agree.join (hphase : l.phase id = .unborn) :
    l.Keeps ({ l with book := l.book.join id }.moveTo id .running) := by
  have hentry := h.entries id
  rw [hphase] at hentry
  refine h.turn ?_ ?_ ?_ nofun ?_ (fun _ _ => rfl) hentry.join ?_ ?_ h.ordered
  · rw [hphase]
    rfl
  · rw [hphase]
    rfl
  · rw [hphase]
    nofun
  · intro _
    rw [hphase]
    exact ⟨rfl, rfl⟩
  · intro other hne
    exact (h.entries other).join_other hne
  · exact h.fits.congr h.fits.wants rfl rfl

theorem Agree.enqueue {want : ℕ} (hphase : l.phase id = .opening want) :
    l.Keeps ({ l with
      book := l.book.enqueue id want
      log := l.log ++ [Fifo.Event.queued id] }.moveTo id .waiting) := by
  have hentry := h.entries id
  rw [hphase] at hentry
  have hnew : id ∉ l.book.ticketIds := fun hmem => nomatch hentry.queued.mp hmem
  have hheld : (l.book.enqueue id want).held = l.book.held := by
    rw [PermitBook.enqueue_eq hnew]
  refine h.turn ?_ ?_ ?_ nofun ?_ ?_ hentry.enqueue ?_ ?_ (h.ordered.enqueue hnew want)
  · rw [hphase]
    rfl
  · rw [hphase]
    rfl
  · rw [hphase]
    nofun
  · intro _
    rw [hphase, hheld]
    exact ⟨rfl, rfl⟩
  · intro other _
    rw [hheld]
  · intro other hne
    exact (h.entries other).enqueue_other hnew hne
  · refine h.fits.congr ?_ hheld ?_
    · rw [PermitBook.enqueue_eq hnew]
      intro ticket hticket
      rcases mem_append.mp hticket with hold | hlast
      · exact h.fits.wants ticket hold
      · obtain rfl := mem_singleton.mp hlast
        exact Nat.lt_of_lt_of_le Nat.one_pos (le_max_right want 1)
    · rw [PermitBook.enqueue_eq hnew]

theorem Agree.poll (hphase : l.phase id = .waiting) :
    l.Keeps ({ l with
      book := (l.book.poll id).2
      log := l.log ++ (l.book.poll id).1.events id }.moveTo id (l.book.poll id).1.phase) := by
  have hentry := h.entries id
  rw [hphase] at hentry
  have hpolled := h.fits.polled id
  generalize (l.book.poll id).1 = outcome at hpolled ⊢
  generalize (l.book.poll id).2 = book at hpolled ⊢
  refine h.turn ?_ ?_ ?_ ?_ ?_ ?_ (hpolled.has h.ordered.nodup hentry) ?_
    (hpolled.fits h.fits (hentry.bare rfl)) (hpolled.ordered h.ordered)
  · rw [hphase]
    cases outcome <;> rfl
  · rw [hphase]
    cases outcome <;> rfl
  · rw [hphase]
    nofun
  · cases outcome <;> nofun
  · intro hsettled
    cases hpolled with
    | granted | cancelled => cases hsettled
    | wait =>
      rw [hphase]
      exact ⟨rfl, rfl⟩
  · intro other hne
    cases hpolled with
    | granted => simp [hne]
    | cancelled => rfl
    | wait => rfl
  · intro other hne
    exact hpolled.has_other (h.entries other) hne

theorem Agree.revoke (hphase : l.phase id = .waiting) :
    l.Keeps ({ l with book := l.book.cancel id }.moveTo id .revoked) := by
  have hheld := l.book.held_cancel id
  have hentry := (h.entries id).cancel id
  rw [hphase] at hentry
  have hrevoked : (l.book.cancel id).Has id .revoked := hentry.moved (fun _ => hentry.bare rfl) nofun rfl rfl
  refine h.turn ?_ ?_ ?_ nofun ?_ ?_ hrevoked ?_ (h.fits.cancel id) ?_
  · rw [hphase]
    rfl
  · rw [hphase]
    rfl
  · rw [hphase]
    nofun
  · intro _
    rw [hphase, hheld]
    exact ⟨rfl, rfl⟩
  · intro other _
    rw [hheld]
  · intro other _
    exact (h.entries other).cancel id
  · rw [PermitBook.Ordered, PermitBook.ticketIds_cancel]
    exact h.ordered

theorem Agree.release (hphase : l.phase id = .closing) :
    l.Keeps ({ l with book := l.book.release id }.moveTo id .released) := by
  have hentry := h.entries id
  rw [hphase] at hentry
  refine h.turn ?_ ?_ ?_ nofun nofun ?_ hentry.release ?_ (h.fits.erase h.fits.wants rfl rfl) h.ordered
  · rw [hphase]
    rfl
  · rw [hphase]
    rfl
  · rw [hphase]
    nofun
  · intro other hne
    simp [PermitBook.release, hne]
  · intro other hne
    exact (h.entries other).release_other hne

theorem Agree.forget {queued : Bool} (hphase : l.phase id = .exiting queued) :
    l.Keeps ({ l with
      book := l.book.forget id
      log := l.log ++ [Fifo.Event.withdrawn id] }.moveTo id .forgotten) := by
  refine h.turn ?_ ?_ ?_ nofun nofun ?_ (PermitBook.has_forget l.book id) ?_ ?_ (h.ordered.withdraw id rfl)
  · rw [hphase]
    rfl
  · rw [hphase]
    rfl
  · rw [hphase]
    nofun
  · intro other hne
    simp [PermitBook.forget, PermitBook.dropTicket, hne]
  · intro other hne
    exact (h.entries other).forget_other hne
  · refine h.fits.erase (fun ticket hticket => ?_) rfl rfl
    exact h.fits.wants ticket (mem_of_mem_filter hticket)

end

/-! ### Events of the scheduler -/

variable {readers : Readers K F E}

/-- A post retires readers and starts new ones. -/
theorem Agree.begin (h : l.Agree) {spawn : List ℕ} (hbegins : l.readers.Begins readers spawn) (cancels : Finset ℕ) :
    l.Keeps { l with
      readers, cancels
      phase := fun id => if id ∈ spawn then .unborn else l.phase id } := by
  obtain ⟨n, hspawn, hnextId⟩ := hbegins.fresh
  have hnew : ∀ id ∈ spawn, l.readers.nextId ≤ id ∧ id < readers.nextId := by
    intro id hid
    rw [hspawn, mem_range'_1] at hid
    omega
  have hhere : ∀ slot ∈ l.readers.slots, slot.id ∉ spawn := by
    intro slot hslot hmem
    exact (h.sits slot hslot).here (h.fresh slot.id (hnew slot.id hmem).1)
  refine ⟨⟨?_, ?_, ?_, ?_, ?_, ?_, h.fits, h.ordered⟩, ?_⟩
  · intro id hid
    dsimp only at hid ⊢
    have hnot : id ∉ spawn := fun hmem => absurd (hnew id hmem).2 (by omega)
    rw [if_neg hnot]
    exact h.fresh id (by omega)
  · rw [hbegins.ids, nodup_append]
    refine ⟨h.nodup, ?_, ?_⟩
    · rw [hspawn]
      exact nodup_range'
    · rintro _ hold _ hmem rfl
      obtain ⟨slot, hslot, rfl⟩ := mem_map.mp hold
      exact hhere slot hslot hmem
  · intro id hid
    dsimp only at hid ⊢
    rw [hbegins.ids, mem_append]
    split at hid
    · rename_i hmem
      exact .inr hmem
    · exact .inl (h.seated id hid)
  · intro slot' hslot'
    dsimp only
    rcases hbegins.slots slot' hslot' with ⟨slot, hslot, hleased⟩ | ⟨hid, -, hstate⟩
    · rw [hleased.id, if_neg (hhere slot hslot)]
      exact hleased.sits (h.sits slot hslot)
    · rw [if_pos hid]
      exact .of_not_asks nofun rfl hstate
  · intro slot' hslot' hsettled
    dsimp only at hsettled ⊢
    rcases hbegins.slots slot' hslot' with ⟨slot, hslot, hleased⟩ | ⟨hid, hthreads, -⟩
    · rw [hleased.id, if_neg (hhere slot hslot)] at hsettled
      rw [hleased.id, hleased.threads]
      exact h.threads slot hslot hsettled
    · have hentry := h.entries slot'.id
      rw [h.fresh _ (hnew _ hid).1] at hentry
      rw [hthreads, PermitBook.heldBy, hentry.bare rfl]
      rfl
  · intro id
    dsimp only
    have hentry := h.entries id
    split
    · rename_i hmem
      rw [h.fresh id (hnew id hmem).1] at hentry
      exact hentry.moved (fun _ => hentry.bare rfl) nofun rfl rfl
    · exact hentry
  · intro id hgone
    have holder := hgone.older
    refine ⟨?_, ?_⟩
    · dsimp only
      rw [if_neg]
      · exact hgone.absent
      · exact fun hmem => absurd (hnew id hmem).1 (by omega)
    · dsimp only
      omega

/-- A reader acts, and its thread goes on. -/
structure Acts (l : Lane K F E) (readers : Readers K F E) (id : ℕ) (phase : Phase) : Prop where
  nextId : readers.nextId = l.readers.nextId
  nodup : (readers.slots.map Slot.id).Nodup
  stay : ∀ other, other ≠ id → other ∈ l.readers.slots.map Slot.id → other ∈ readers.slots.map Slot.id
  seated : phase.seated → id ∈ readers.slots.map Slot.id
  others : ∀ slot' ∈ readers.slots, slot'.id ≠ id → ∃ slot ∈ l.readers.slots, slot.Leased slot'
  sits : ∀ slot' ∈ readers.slots, slot'.id = id → slot'.Sits phase
  threads : ∀ slot' ∈ readers.slots, slot'.id = id → phase.settled → slot'.threads = l.book.heldBy id

section

variable (h : l.Agree)

include h

theorem Agree.act (hacts : l.Acts readers id phase) (hhere : l.phase id ≠ .absent)
    (hentry : l.book.Has id phase) : l.Keeps ({ l with readers }.moveTo id phase) := by
  refine ⟨⟨?_, hacts.nodup, ?_, ?_, ?_, ?_, h.fits, h.ordered⟩, fun _ hgone => hgone.moveTo hhere hacts.nextId⟩
  · intro other hother
    have hfresh := h.fresh other (hacts.nextId ▸ hother)
    rw [moveTo_phase, if_neg]
    · exact hfresh
    · rintro rfl
      exact hhere hfresh
  · intro other hother
    rw [moveTo_phase] at hother
    split at hother
    · rename_i heq
      rw [heq]
      exact hacts.seated hother
    · rename_i hne
      exact hacts.stay other hne (h.seated other hother)
  · intro slot' hslot'
    rw [moveTo_phase]
    split
    · rename_i heq
      exact hacts.sits slot' hslot' heq
    · rename_i hne
      obtain ⟨slot, hslot, hleased⟩ := hacts.others slot' hslot' hne
      rw [hleased.id]
      exact hleased.sits (h.sits slot hslot)
  · intro slot' hslot' hsettled
    rw [moveTo_phase] at hsettled
    show slot'.threads = l.book.heldBy slot'.id
    split at hsettled
    · rename_i heq
      rw [hacts.threads slot' hslot' heq hsettled, heq]
    · rename_i hne
      obtain ⟨slot, hslot, hleased⟩ := hacts.others slot' hslot' hne
      rw [hleased.id] at hsettled ⊢
      rw [hleased.threads]
      exact h.threads slot hslot hsettled
  · intro other
    rw [moveTo_phase]
    split
    · rename_i heq
      rw [heq]
      exact hentry
    · exact h.entries other

/-- A reader that runs has moved, and does not ask for permits. -/
theorem Agree.move (hphase : l.phase id = .running) (hmoves : l.readers.Moves id readers)
    (hnext : phase = .running ∨ phase = .closing ∨ phase = .exiting false) :
    l.Keeps ({ l with readers }.moveTo id phase) := by
  have hids : readers.slots.map Slot.id = l.readers.slots.map Slot.id :=
    map_eq_of_forall₂ hmoves.slots fun _ _ hmoved => hmoved.id_eq
  have hhere : l.phase id ≠ .absent := by
    rw [hphase]
    nofun
  have hentry := h.entries id
  rw [hphase] at hentry
  refine h.act ⟨hmoves.nextId, hids ▸ h.nodup, fun _ _ hmem => hids ▸ hmem, fun _ => ?_, ?_, ?_, ?_⟩ hhere ?_
  · rw [hids]
    apply h.seated
    rw [hphase]
    rfl
  · intro slot' hslot' hne
    obtain ⟨slot, hslot, hmoved⟩ := mem_right_of_forall₂ hmoves.slots hslot'
    exact ⟨slot, hslot, hmoved.id_eq, hmoved.threads, .inl (hmoved.other (hmoved.id_eq ▸ hne))⟩
  · intro slot' hslot' heq
    obtain ⟨slot, hslot, hmoved⟩ := mem_right_of_forall₂ hmoves.slots hslot'
    have hsits := h.sits slot hslot
    rw [← hmoved.id_eq, heq, hphase] at hsits
    refine .of_not_asks ?_ ?_ fun hwaits => nomatch hsits.asked (hmoved.waits hwaits)
    · rcases hnext with rfl | rfl | rfl <;> nofun
    · rcases hnext with rfl | rfl | rfl <;> rfl
  · intro slot' hslot' heq _
    obtain ⟨slot, hslot, hmoved⟩ := mem_right_of_forall₂ hmoves.slots hslot'
    have hsame : slot.id = id := hmoved.id_eq.symm.trans heq
    rw [hmoved.threads, ← hsame]
    apply h.threads slot hslot
    rw [hsame, hphase]
    rfl
  · refine hentry.moved ?_ ?_ ?_ ?_
    · rcases hnext with rfl | rfl | rfl <;> nofun
    · rcases hnext with rfl | rfl | rfl <;> nofun
    all_goals rcases hnext with rfl | rfl | rfl <;> rfl

/-- The reader's slot changes, and its thread goes on. -/
theorem Agree.change {f : Slot K → Slot K} (hnextId : readers.nextId = l.readers.nextId)
    (hslots : readers.slots = updateSlots l.readers.slots id f)
    (hf : ∀ slot, (f slot).id = slot.id) (hseated : (l.phase id).seated)
    (hsits : ∀ slot ∈ l.readers.slots, slot.id = id → (f slot).Sits phase)
    (hthreads : ∀ slot ∈ l.readers.slots, slot.id = id → phase.settled → (f slot).threads = l.book.heldBy id)
    (hentry : l.book.Has id phase) : l.Keeps ({ l with readers }.moveTo id phase) := by
  rw [updateSlots_eq_map h.nodup] at hslots
  have hids : readers.slots.map Slot.id = l.readers.slots.map Slot.id := by
    rw [hslots, map_map]
    apply map_congr_left
    intro slot _
    dsimp only [Function.comp_apply]
    split
    · exact hf slot
    · rfl
  have hhere : l.phase id ≠ .absent := by
    intro habsent
    rw [habsent] at hseated
    cases hseated
  have hbefore : ∀ slot' ∈ readers.slots, ∃ slot ∈ l.readers.slots, slot.id = slot'.id ∧
      slot' = if slot.id = id then f slot else slot := by
    intro slot' hslot'
    rw [hslots] at hslot'
    obtain ⟨slot, hslot, rfl⟩ := mem_map.mp hslot'
    refine ⟨slot, hslot, ?_, rfl⟩
    split
    · exact (hf slot).symm
    · rfl
  refine h.act ⟨hnextId, hids ▸ h.nodup, fun _ _ hmem => hids ▸ hmem, fun _ => ?_, ?_, ?_, ?_⟩ hhere hentry
  · rw [hids]
    exact h.seated id hseated
  · intro slot' hslot' hne
    obtain ⟨slot, hslot, hid, rfl⟩ := hbefore slot' hslot'
    refine ⟨slot, hslot, ?_⟩
    rw [if_neg (hid ▸ hne)]
    exact .refl slot
  · intro slot' hslot' heq
    obtain ⟨slot, hslot, hid, rfl⟩ := hbefore slot' hslot'
    rw [if_pos (hid.trans heq)]
    exact hsits slot hslot (hid.trans heq)
  · intro slot' hslot' heq hsettled
    obtain ⟨slot, hslot, hid, rfl⟩ := hbefore slot' hslot'
    rw [if_pos (hid.trans heq)]
    exact hthreads slot hslot (hid.trans heq) hsettled

/-- A reader that runs was told to open a decoder. -/
theorem Agree.queue (hphase : l.phase id = .running)
    (hmoves : l.readers.Moves id readers) {slot : Slot K} (hslot : slot ∈ l.readers.slots)
    (hid : slot.id = id) (hthreads : slot.threads = 0) (want : ℕ) :
    l.Keeps ({ l with
      readers := readers.updateSlot id fun slot => { slot with state := .permitWait } }.moveTo id (.opening want)) := by
  have hmoved := h.move hphase hmoves (.inl rfl)
  -- it has no decoder, so it holds nothing
  have hbare : l.book.held.get? id = none := by
    have hheld := h.threads slot hslot (by rw [hid, hphase]; rfl)
    rw [hid, PermitBook.heldBy] at hheld
    rcases hpermits : l.book.held.get? id with _ | permits
    · rfl
    · have := h.fits.positive id permits hpermits
      rw [hpermits] at hheld
      simp only [Option.getD_some] at hheld
      omega
  have hentry := hmoved.agree.entries id
  rw [moveTo_phase, if_pos rfl] at hentry
  have hqueue : ({ l with readers }.moveTo id .running).Keeps
      ({ { l with readers }.moveTo id .running with
        readers := readers.updateSlot id fun slot => { slot with state := .permitWait } }.moveTo id
          (.opening want)) := by
    refine hmoved.agree.change rfl rfl (fun _ => rfl) (by simp [Phase.seated]) ?_ ?_
      (hentry.moved (fun _ => hbare) nofun rfl rfl)
    · intro other _ _
      exact ⟨nofun, fun _ => rfl, fun _ => .inl rfl⟩
    · intro other hother heq _
      have hsettled := hmoved.agree.threads other hother
      rw [heq, moveTo_phase, if_pos rfl] at hsettled
      exact hsettled rfl
  have hsame := moveTo_moveTo { l with
    readers := readers.updateSlot id fun slot => { slot with state := .permitWait } } id .running (.opening want)
  rw [← hsame]
  exact hmoved.trans hqueue

/-- The scheduler hears that the reader left its wait. -/
theorem Agree.granted {permits : Option ℕ} (hphase : l.phase id = .granted permits) (now : ℕ) :
    l.Keeps ({ l with readers := l.readers.granted id permits now }.moveTo id .running) := by
  have hentry := h.entries id
  rw [hphase] at hentry
  refine h.change rfl rfl (fun _ => rfl) ?_ ?_ ?_ (hentry.moved nofun nofun rfl rfl)
  · rw [hphase]
    rfl
  · intro slot _ _
    refine .of_not_asks nofun rfl ?_
    split
    · nofun
    · assumption
  · intro slot _ _ _
    rw [PermitBook.heldBy, hentry.given permits rfl]

theorem Agree.barred (hphase : l.phase id = .revoked) (now : ℕ) :
    l.Keeps ({ l with readers := l.readers.granted id none now }.moveTo id .barred) := by
  have hentry := h.entries id
  rw [hphase] at hentry
  refine h.change rfl rfl (fun _ => rfl) ?_ ?_ ?_ (hentry.moved (fun _ => hentry.bare rfl) nofun rfl rfl)
  · rw [hphase]
    rfl
  · intro slot _ _
    refine .of_not_asks nofun rfl ?_
    split
    · nofun
    · assumption
  · intro slot _ _ _
    rw [PermitBook.heldBy, hentry.bare rfl]

end

variable [DecidableEq K]

/-- The scheduler hears that the reader gave its permits back. -/
theorem Agree.closed (h : l.Agree) (hphase : l.phase id = .released) :
    l.Keeps ({ l with readers := l.readers.closed id }.moveTo id .running) := by
  have hentry := h.entries id
  rw [hphase] at hentry
  have hseated : (l.phase id).seated := by
    rw [hphase]
    rfl
  have hchange : (l.readers.closed id).nextId = l.readers.nextId ∧
      (l.readers.closed id).slots = updateSlots l.readers.slots id Slot.shut := by
    unfold Readers.closed
    split
    · rename_i hnone
      obtain ⟨slot, hslot, hid⟩ := mem_map.mp (h.seated id hseated)
      have := find?_eq_none.mp hnone slot hslot
      simp [hid] at this
    · exact ⟨rfl, rfl⟩
  refine h.change hchange.1 hchange.2 (fun _ => rfl) hseated ?_ ?_ (hentry.moved nofun nofun rfl rfl)
  · intro slot hslot hid
    refine .of_not_asks nofun rfl fun hwaits => ?_
    have hsits := h.sits slot hslot
    rw [hid, hphase] at hsits
    exact nomatch hsits.asked hwaits
  · intro slot _ _ _
    rw [PermitBook.heldBy, hentry.bare rfl]
    rfl

omit [DecidableEq K] in
/-- A reader has no slot any more. -/
theorem Agree.leave (h : l.Agree) (hnextId : readers.nextId = l.readers.nextId)
    (hslots : readers.slots = l.readers.slots.eraseP fun slot => slot.id = id)
    (hhere : l.phase id ≠ .absent) (hseated : phase.seated = false)
    (hentry : l.book.Has id phase) : l.Keeps ({ l with readers }.moveTo id phase) := by
  have hsub : readers.slots.Sublist l.readers.slots := hslots ▸ eraseP_sublist
  have hne : ∀ slot ∈ readers.slots, slot.id ≠ id := by
    intro slot hslot
    rw [hslots] at hslot
    exact ne_of_mem_eraseP h.nodup hslot
  refine h.act ⟨hnextId, (hsub.map Slot.id).nodup h.nodup, ?_, ?_, ?_, ?_, ?_⟩ hhere hentry
  · intro other hother hmem
    obtain ⟨slot, hslot, rfl⟩ := mem_map.mp hmem
    refine mem_map.mpr ⟨slot, ?_, rfl⟩
    rw [hslots]
    exact (mem_eraseP_of_neg (by simpa using hother)).mpr hslot
  · intro h
    rw [hseated] at h
    cases h
  · intro slot hslot _
    exact ⟨slot, hsub.subset hslot, .refl slot⟩
  all_goals exact fun slot hslot heq => absurd heq (hne slot hslot)

end Lane

namespace Readers

variable [DecidableEq K]

omit [DecidableEq K] in
theorem slots_leave_of_none {r : Readers K F E} {id : ℕ} (h : r.slot? id = none) :
    r.slots = r.slots.eraseP fun slot => slot.id = id := by
  symm
  apply eraseP_of_forall_not
  intro slot hslot
  exact find?_eq_none.mp h slot hslot

theorem slots_exited (r : Readers K F E) (id : ℕ) : (r.exited id).nextId = r.nextId ∧
      (r.exited id).slots = r.slots.eraseP fun slot => slot.id = id := by
  unfold exited
  split
  · rename_i hnone
    exact ⟨rfl, slots_leave_of_none hnone⟩
  · rename_i slot hslot
    obtain rfl := slot?_id hslot
    exact ⟨rfl, rfl⟩

theorem slots_failStart (r : Readers K F E) (id : ℕ) (error : E) : (r.failStart id error).nextId = r.nextId ∧
      (r.failStart id error).slots = r.slots.eraseP fun slot => slot.id = id := by
  unfold failStart
  split
  · rename_i hnone
    exact ⟨rfl, slots_leave_of_none hnone⟩
  · rename_i slot hslot
    obtain rfl := slot?_id hslot
    exact ⟨rfl, rfl⟩

variable [Weighed F]

/-- The calls of the preview start and retire readers, and do nothing else to permits. -/
theorem begins_call {r : Readers K F E} {call : Call K F E}
    {result : Answer K F E × Readers K F E} (hreader : call.reader = none)
    (hseparate : call.separate = false) (h : r.call call = some result) :
    Begins r result.2 result.1.starts := by
  cases call with
  | next | deliver | refilledExact | stopped => cases hreader
  | granted | closed | failStart | exited => cases hseparate
  | hold windows kept =>
    cases h
    have hsame : Retires r (r.hold windows kept) := retires_of_eq rfl rfl
    exact hsame.begins
  | post planned sizes generated detached now =>
    cases h
    exact begins_postPlanned planned sizes generated detached now
  | assign now =>
    cases h
    exact begins_assign r now
  | admitRequired generated pinned victims =>
    obtain ⟨admitted, hadmitted, rfl⟩ := Option.map_eq_some_iff.mp h
    exact (retires_admitRequired hadmitted).begins
  | adopt bytes =>
    cases h
    exact (retires_adopt bytes).begins
  | forget keep =>
    cases h
    exact (retires_forget keep).begins
  | clearCache active now =>
    cases h
    cases active with
    | true =>
      have hsame : Retires r (r.clearCache true now).2 := retires_of_eq rfl rfl
      exact hsame.begins
    | false => exact begins_clearCache now
  | clearRings =>
    cases h
    have hsame : Retires r r.clearRings.2 := retires_of_eq rfl rfl
    exact hsame.begins
  | retireAll =>
    cases h
    exact retires_retireAll.begins

end Readers

namespace Lane

variable {l : Lane K F E} {id : ℕ}

/-- The lane after a call of the preview. -/
theorem answer_of_reader_none (l : Lane K F E) {call : Call K F E} (hreader : call.reader = none)
    (a : Answer K F E) : ∃ cancels, l.answer call a = { l with
        cancels
        phase := fun id => if id ∈ a.starts then .unborn else l.phase id } := by
  have hsame : (fun id => if id ∈ ([] : List ℕ) then Phase.unborn else l.phase id) = l.phase := by
    funext id
    rw [if_neg not_mem_nil]
  cases a with
  | posted posted | forgot retired posted => exact ⟨_, rfl⟩
  | next step =>
    refine ⟨l.cancels, ?_⟩
    rw [answer, hreader]
    rfl
  | done | delivered | admission | adopted | frames =>
    refine ⟨l.cancels, ?_⟩
    rw [Answer.starts, hsame, answer]

variable [DecidableEq K] [Weighed F]

section

variable (h : l.Agree)

include h

omit [Weighed F] in
/-- A reader fails its times and leaves, since the authority of its source is gone. -/
theorem Agree.refuse (hphase : l.phase id = .running ∨ l.phase id = .barred) (error : E) :
    l.Keeps ({ l with readers := l.readers.failStart id error }.moveTo id (.exiting (l.phase id = Phase.barred))) := by
  obtain ⟨hnextId, hslots⟩ := Readers.slots_failStart l.readers id error
  have hentry := h.entries id
  refine h.leave hnextId hslots ?_ rfl ?_
  · rcases hphase with hphase | hphase
    all_goals
      rw [hphase]
      nofun
  · rcases hphase with hphase | hphase
    all_goals
      rw [hphase] at hentry ⊢
      exact hentry.moved nofun nofun rfl rfl

omit [Weighed F] in
theorem Agree.exited (hphase : l.phase id = .forgotten) (error : Option E) :
    l.Keeps ({ l with
      readers := match error with
        | some error => l.readers.failStart id error
        | none => l.readers.exited id }.moveTo id .absent) := by
  have hentry := h.entries id
  rw [hphase] at hentry
  have hhere : l.phase id ≠ .absent := by
    rw [hphase]
    nofun
  have habsent : l.book.Has id .absent := hentry.moved (fun _ => hentry.bare rfl) nofun rfl rfl
  cases error with
  | some error =>
    obtain ⟨hnextId, hslots⟩ := Readers.slots_failStart l.readers id error
    exact h.leave hnextId hslots hhere rfl habsent
  | none =>
    obtain ⟨hnextId, hslots⟩ := Readers.slots_exited l.readers id
    exact h.leave hnextId hslots hhere rfl habsent

omit [DecidableEq K] [Weighed F] in
/-- A cancel reaches the book, whenever it does. -/
theorem Agree.cancel (id : ℕ) : l.Keeps { l with book := l.book.cancel id } := by
  refine ⟨⟨h.fresh, h.nodup, h.seated, h.sits, ?_, ?_, h.fits.cancel id, ?_⟩,
    fun _ hgone => ⟨hgone.absent, hgone.older⟩⟩
  · intro slot hslot hsettled
    rw [PermitBook.heldBy, PermitBook.held_cancel]
    exact h.threads slot hslot hsettled
  · exact fun other => (h.entries other).cancel id
  · rw [PermitBook.Ordered, PermitBook.ticketIds_cancel]
    exact h.ordered

omit [DecidableEq K] [Weighed F] in
theorem Agree.shutdown : l.Keeps { l with book := { l.book with shutdown := true } } := by
  refine ⟨⟨h.fresh, h.nodup, h.seated, h.sits, h.threads, ?_, ?_, h.ordered⟩,
    fun _ hgone => ⟨hgone.absent, hgone.older⟩⟩
  · exact fun id => (h.entries id).congr rfl Iff.rfl Iff.rfl (h.entries id).cancelled
  · exact h.fits.congr h.fits.wants rfl rfl

omit [DecidableEq K] [Weighed F] in
theorem Agree.slot_of_running (hphase : l.phase id = .running) : ∃ slot, l.readers.slot? id = some slot := by
  have hseated : (l.phase id).seated := by
    rw [hphase]
    rfl
  obtain ⟨slot, hslot, hid⟩ := mem_map.mp (h.seated id hseated)
  refine Option.isSome_iff_exists.mp (find?_isSome.mpr ⟨slot, hslot, ?_⟩)
  simpa using hid

/-- A reader that runs asks for its next step. -/
theorem Agree.next (hphase : l.phase id = .running) (now : ℕ) (shutdown : Bool) :
    l.Keeps ({ l with readers := (l.readers.next id now shutdown).2 }.moveTo id
      (l.readers.next id now shutdown).1.phase) := by
  obtain ⟨slot, hslot⟩ := h.slot_of_running hphase
  rcases next_leases hslot now shutdown with
    ⟨want, htold, hthreads, r₀, hmoves, heq⟩ | ⟨hnot, hmoves⟩
  · rw [htold, heq]
    exact h.queue hphase hmoves (slot?_mem hslot) (Readers.slot?_id hslot) hthreads want
  · exact h.move hphase hmoves (Next.phase_of_ne hnot)

theorem Agree.call {call : Call K F E} {result : Answer K F E × Readers K F E}
    (hreader : ∀ id ∈ call.reader, l.phase id = .running) (hseparate : call.separate = false)
    (hcall : l.readers.call call = some result) :
    l.Keeps ({ l with readers := result.2 }.answer call result.1) := by
  rcases hcaller : call.reader with _ | id
  · have hbegins := Readers.begins_call hcaller hseparate hcall
    obtain ⟨cancels, heq⟩ := answer_of_reader_none { l with readers := result.2 } hcaller result.1
    rw [heq]
    exact h.begin hbegins cancels
  · have hphase := hreader id hcaller
    -- the thread of a reader that delivers, refills or stops goes on to its next step
    have hmove {readers : Readers K F E} (hmoves : l.readers.Moves id readers) :
        l.Keeps { l with readers } := by
      have hmoved := h.move hphase hmoves (.inl rfl)
      rwa [moveTo_self] at hmoved
      exact hphase
    cases call with
    | next caller now shutdown =>
      cases hcaller
      cases hcall
      exact h.next hphase now shutdown
    | deliver caller time version outcome now =>
      cases hcaller
      cases hcall
      exact hmove (moves_deliver id time version outcome now)
    | refilledExact caller t version keptFrom kept =>
      cases hcaller
      cases hcall
      exact hmove (moves_refilledExact id t version keptFrom kept)
    | stopped caller now =>
      cases hcaller
      cases hcall
      exact hmove (moves_stopped id now)
    | _ => cases hcaller

end

end Lane

end Kinewright.Media
