import Kinewright.Media.Permits

/-!
# What the book has of a reader

Where a reader's thread is between two critical sections says what the book has of it: permits, a
ticket, a cancel. Each operation of the book moves one reader and leaves the others.
-/

namespace Kinewright.Media

open List

/-! ## Where a thread is -/

namespace Phase

/-- The thread asked for permits and the scheduler has not heard the answer. -/
def asks : Phase → Bool
  | .opening _ | .waiting | .granted _ | .revoked => true
  | _ => false

/-- The reader's request is in the queue. -/
def queues : Phase → Bool
  | .waiting | .revoked | .barred => true
  | .exiting queued => queued
  | _ => false

/-- The book knows the reader. -/
def joined : Phase → Bool
  | .absent | .unborn | .forgotten => false
  | _ => true

/-- The book holds no permits for the reader. -/
def bare : Phase → Bool
  | .absent | .unborn | .opening _ | .waiting | .revoked | .barred | .released | .forgotten => true
  | .running | .granted _ | .closing | .exiting _ => false

/-- The scheduler has heard of the last change of the reader's permits. -/
def settled : Phase → Bool
  | .granted _ | .released | .forgotten => false
  | _ => true

/-- The reader has a slot, whatever it does. -/
def seated : Phase → Bool
  | .absent | .exiting _ | .forgotten => false
  | _ => true

end Phase

/-- A step that opens no decoder leaves the thread running, closing or leaving. -/
theorem Next.phase_of_ne {step : Next} (h : ∀ want, step ≠ .openFor want) :
    step.phase = .running ∨ step.phase = .closing ∨ step.phase = .exiting false := by
  cases step with
  | openFor want => exact absurd rfl (h want)
  | close => exact .inr (.inl rfl)
  | retire => exact .inr (.inr rfl)
  | decode | discard | wait => exact .inl rfl

/-! ## The book -/

namespace PermitBook

variable {b b' : PermitBook} {reader : ℕ} {phase phase' : Phase}

/-- What the book says of a reader, where its thread is. -/
structure Has (b : PermitBook) (reader : ℕ) (phase : Phase) : Prop where
  bare : phase.bare → b.held.get? reader = none
  given : ∀ permits, phase = .granted permits → b.held.get? reader = permits
  queued : reader ∈ b.ticketIds ↔ phase.queues
  joined : reader ∈ b.live ↔ phase.joined
  cancelled : reader ∈ b.cancelled → reader ∈ b.live

/-- The permits are positive and fit in the pool. -/
structure Fits (b : PermitBook) : Prop where
  wants : ∀ ticket ∈ b.tickets, 0 < ticket.2
  positive : ∀ reader permits, b.held.get? reader = some permits → 0 < permits
  within : b.inUse ≤ b.pool

theorem Has.congr (h : b.Has reader phase) (hheld : b'.held.get? reader = b.held.get? reader)
    (hqueued : reader ∈ b'.ticketIds ↔ reader ∈ b.ticketIds)
    (hjoined : reader ∈ b'.live ↔ reader ∈ b.live)
    (hcancelled : reader ∈ b'.cancelled → reader ∈ b'.live) : b'.Has reader phase where
  bare := fun hbare => hheld.trans (h.bare hbare)
  given := fun permits hgiven => hheld.trans (h.given permits hgiven)
  queued := hqueued.trans h.queued
  joined := hjoined.trans h.joined
  cancelled := hcancelled

/-- The thread is somewhere else, and the book is as it was. -/
theorem Has.moved (h : b.Has reader phase) (hbare : phase'.bare → b.held.get? reader = none)
    (hgiven : ∀ permits, phase' ≠ .granted permits) (hqueued : phase'.queues = phase.queues)
    (hjoined : phase'.joined = phase.joined) : b.Has reader phase' where
  bare := hbare
  given := fun permits heq => absurd heq (hgiven permits)
  queued := by rw [hqueued, h.queued]
  joined := by rw [hjoined, h.joined]
  cancelled := h.cancelled

variable {other : ℕ}

theorem mem_ticketIds_dropTicket : other ∈ (b.dropTicket reader).ticketIds ↔ other ∈ b.ticketIds ∧ other ≠ reader := by
  simp only [dropTicket, ticketIds, mem_map, mem_filter, decide_eq_true_eq]
  constructor
  · rintro ⟨ticket, ⟨hticket, hne⟩, rfl⟩
    exact ⟨⟨ticket, hticket, rfl⟩, hne⟩
  · rintro ⟨⟨ticket, hticket, rfl⟩, hne⟩
    exact ⟨ticket, ⟨hticket, hne⟩, rfl⟩

/-- A request that leaves the queue is taken out of its order. -/
theorem ticketIds_dropTicket (hnodup : b.ticketIds.Nodup) (reader : ℕ) :
    (b.dropTicket reader).ticketIds = b.ticketIds.erase reader := by
  rw [hnodup.erase_eq_filter, ticketIds, ticketIds, filter_map]
  congr 1
  apply filter_congr
  intro ticket _
  by_cases heq : ticket.1 = reader
  · simp [heq]
  · simp [heq]

theorem Fits.congr (h : b.Fits) (hwants : ∀ ticket ∈ b'.tickets, 0 < ticket.2)
    (hheld : b'.held = b.held) (hpool : b'.pool = b.pool) : b'.Fits where
  wants := hwants
  positive := by
    rw [hheld]
    exact h.positive
  within := by
    rw [inUse, hheld, hpool]
    exact h.within

theorem Fits.erase (h : b.Fits) (hwants : ∀ ticket ∈ b'.tickets, 0 < ticket.2)
    (hheld : b'.held = b.held.erase reader) (hpool : b'.pool = b.pool) : b'.Fits where
  wants := hwants
  positive := by
    intro other permits hpermits
    rw [hheld, KeyedMap.get?_erase] at hpermits
    split at hpermits
    · cases hpermits
    · exact h.positive other permits hpermits
  within := by
    have htotal : (b.held.erase reader).total id + ((b.held.get? reader).map id).getD 0
        = b.held.total id := b.held.total_erase_add reader
    have hwithin := h.within
    rw [inUse] at hwithin
    rw [inUse, hheld]
    omega

/-! ### Cancels -/

theorem mem_popFirst {ids : Finset ℕ} (h : reader ∈ popFirst ids) : reader ∈ ids := Finset.mem_of_mem_filter reader h

/-- A cancel changes nothing but the cancelled requests, which are of readers that the book knows. -/
theorem Has.cancel (h : b.Has reader phase) (other : ℕ) : (b.cancel other).Has reader phase := by
  unfold PermitBook.cancel
  split
  · exact h
  · rename_i hlive
    refine h.congr rfl Iff.rfl Iff.rfl fun hcancelled => ?_
    rcases Finset.mem_insert.mp hcancelled with rfl | hkept
    · exact not_not.mp hlive
    · apply h.cancelled
      split at hkept
      · exact mem_popFirst hkept
      · exact hkept

theorem Fits.cancel (h : b.Fits) (other : ℕ) : (b.cancel other).Fits := by
  unfold PermitBook.cancel
  split
  · exact h
  · exact h.congr h.wants rfl rfl

theorem held_cancel (b : PermitBook) (other : ℕ) : (b.cancel other).held = b.held := by
  unfold PermitBook.cancel
  split
  · rfl
  · rfl

theorem ticketIds_cancel (other : ℕ) : (b.cancel other).ticketIds = b.ticketIds := by
  unfold PermitBook.cancel
  split
  · rfl
  · rfl

/-! ### A reader's own operations

Each moves one reader, and leaves what the book says of the others. -/

theorem Has.join (h : b.Has reader .unborn) : (b.join reader).Has reader .running where
  bare := nofun
  given := nofun
  queued := h.queued
  joined := iff_of_true (Finset.mem_insert_self reader b.live) rfl
  cancelled := fun _ => Finset.mem_insert_self reader b.live

theorem Has.join_other (h : b.Has other phase) (hne : other ≠ reader) : (b.join reader).Has other phase := by
  have hlive : other ∈ (b.join reader).live ↔ other ∈ b.live := by
    simp [PermitBook.join, hne]
  refine h.congr rfl Iff.rfl hlive fun hcancelled => ?_
  exact hlive.mpr (h.cancelled hcancelled)

theorem ticketIds_enqueue (hnew : reader ∉ b.ticketIds) (want : ℕ) :
    (b.enqueue reader want).ticketIds = b.ticketIds ++ [reader] := by
  rw [enqueue, if_neg hnew]
  simp [ticketIds]

theorem enqueue_eq (hnew : reader ∉ b.ticketIds) (want : ℕ) :
    b.enqueue reader want = { b with tickets := b.tickets ++ [(reader, max want 1)] } :=
  if_neg hnew

theorem Has.enqueue {asked want : ℕ} (h : b.Has reader (.opening asked)) :
    (b.enqueue reader want).Has reader .waiting := by
  have hnew : reader ∉ b.ticketIds := fun hmem => nomatch h.queued.mp hmem
  have hqueued : reader ∈ (b.enqueue reader want).ticketIds := by
    simp [ticketIds_enqueue hnew]
  rw [enqueue_eq hnew] at hqueued ⊢
  exact ⟨fun _ => h.bare rfl, nofun, iff_of_true hqueued rfl, h.joined, h.cancelled⟩

theorem Has.enqueue_other {want : ℕ} (hnew : reader ∉ b.ticketIds) (h : b.Has other phase)
    (hne : other ≠ reader) : (b.enqueue reader want).Has other phase := by
  have hqueued : other ∈ (b.enqueue reader want).ticketIds ↔ other ∈ b.ticketIds := by
    simp [ticketIds_enqueue hnew, hne]
  rw [enqueue_eq hnew] at hqueued ⊢
  exact h.congr rfl hqueued Iff.rfl h.cancelled

/-- The reader gives its permits back. -/
theorem Has.release (h : b.Has reader .closing) : (b.release reader).Has reader .released where
  bare := by
    intro _
    simp [PermitBook.release]
  given := nofun
  queued := h.queued
  joined := h.joined
  cancelled := h.cancelled

theorem Has.release_other (h : b.Has other phase) (hne : other ≠ reader) : (b.release reader).Has other phase := by
  refine h.congr ?_ Iff.rfl Iff.rfl h.cancelled
  simp [PermitBook.release, hne]

/-- The reader exits: nothing of it stays. -/
theorem has_forget (b : PermitBook) (reader : ℕ) : (b.forget reader).Has reader .forgotten where
  bare := by
    intro _
    simp [PermitBook.forget, dropTicket]
  given := nofun
  queued := by
    refine iff_of_false (fun hmem => ?_) nofun
    exact (mem_ticketIds_dropTicket.mp hmem).2 rfl
  joined := by
    refine iff_of_false ?_ nofun
    simp [PermitBook.forget, dropTicket]
  cancelled := by
    intro hcancelled
    simp [PermitBook.forget, dropTicket] at hcancelled

theorem Has.forget_other (h : b.Has other phase) (hne : other ≠ reader) : (b.forget reader).Has other phase := by
  refine h.congr ?_ ?_ ?_ ?_
  · simp [PermitBook.forget, dropTicket, hne]
  · exact mem_ticketIds_dropTicket.trans (and_iff_left hne)
  · simp [PermitBook.forget, dropTicket, hne]
  · intro hcancelled
    simp only [PermitBook.forget, dropTicket, Finset.mem_erase] at hcancelled ⊢
    exact ⟨hne, h.cancelled hcancelled.2⟩

/-! ### Polls -/

/-- What a poll of a reader that waits can do. -/
inductive Polled (b : PermitBook) (reader : ℕ) : Poll → PermitBook → Prop
  | granted {want permits : ℕ} {tickets : List (ℕ × ℕ)} (hhead : b.tickets = (reader, want) :: tickets)
      (hpositive : 0 < permits) (hfree : b.inUse + permits ≤ b.pool) :
      Polled b reader (.granted permits)
        { b with tickets, held := b.held.insert reader permits }
  | cancelled {cancelled : Finset ℕ} (hsubset : cancelled ⊆ b.cancelled) :
      Polled b reader .cancelled ({ b with cancelled }.dropTicket reader)
  | wait : Polled b reader .wait b

theorem Fits.polled (h : b.Fits) (reader : ℕ) : b.Polled reader (b.poll reader).1 (b.poll reader).2 := by
  unfold poll
  split
  · refine .cancelled ?_
    split
    · exact subset_rfl
    · exact Finset.erase_subset reader b.cancelled
  · split
    · rename_i head want tickets htickets
      dsimp only
      split
      · rename_i hgrant
        obtain ⟨rfl, hfree⟩ := hgrant
        have hwant : 0 < want := h.wants (head, want) (by simp [htickets])
        refine .granted htickets ?_ ?_
        · omega
        · omega
      · exact .wait
    · exact .wait

section Polls

variable {outcome : Poll}

section

variable (hpolled : b.Polled reader outcome b')

include hpolled

theorem Polled.has (hnodup : b.ticketIds.Nodup) (h : b.Has reader .waiting) : b'.Has reader outcome.phase := by
  cases hpolled with
  | @granted want permits tickets hhead hpositive hfree =>
    have hserved : reader ∉ tickets.map Prod.fst := by
      rw [ticketIds, hhead, map_cons, nodup_cons] at hnodup
      exact hnodup.1
    refine ⟨nofun, ?_, iff_of_false hserved nofun, h.joined, h.cancelled⟩
    rintro _ ⟨⟩
    simp
  | cancelled hsubset =>
    refine ⟨nofun, ?_, ?_, h.joined, fun hcancelled => h.cancelled (hsubset hcancelled)⟩
    · rintro _ ⟨⟩
      exact h.bare rfl
    · refine iff_of_false (fun hmem => ?_) nofun
      exact (mem_ticketIds_dropTicket.mp hmem).2 rfl
  | wait => exact h

theorem Polled.has_other {other : ℕ} (h : b.Has other phase) (hne : other ≠ reader) : b'.Has other phase := by
  cases hpolled with
  | granted hhead hpositive hfree =>
    refine h.congr ?_ ?_ Iff.rfl h.cancelled
    · simp [hne]
    · simp [ticketIds, hhead, hne]
  | cancelled hsubset =>
    refine h.congr rfl ?_ Iff.rfl fun hcancelled => h.cancelled (hsubset hcancelled)
    exact mem_ticketIds_dropTicket.trans (and_iff_left hne)
  | wait => exact h

theorem Polled.fits (h : b.Fits) (hbare : b.held.get? reader = none) : b'.Fits := by
  cases hpolled with
  | @granted want permits tickets hhead hpositive hfree =>
    refine ⟨?_, ?_, ?_⟩
    · intro ticket hticket
      exact h.wants ticket (hhead ▸ mem_cons_of_mem _ hticket)
    · intro other permits' hpermits
      rw [KeyedMap.get?_insert] at hpermits
      split at hpermits
      · cases hpermits
        exact hpositive
      · exact h.positive other permits' hpermits
    · have htotal : (b.held.insert reader permits).total id = b.held.total id + permits := by
        rw [KeyedMap.insert, KeyedMap.total_extend]
        · simp
        · simpa using hbare
      rw [inUse, htotal]
      exact hfree
  | cancelled hsubset =>
    refine h.congr ?_ rfl rfl
    intro ticket hticket
    exact h.wants ticket (mem_of_mem_filter hticket)
  | wait => exact h

end

/-- The queue is what its history leaves. -/
def Ordered (b : PermitBook) (log : List (Fifo.Event ℕ)) : Prop := Fifo.replay [] log = some b.ticketIds

variable {log : List (Fifo.Event ℕ)}

theorem Ordered.nodup (h : b.Ordered log) : b.ticketIds.Nodup := Fifo.nodup_replay nodup_nil h

theorem Ordered.enqueue (h : b.Ordered log) (hnew : reader ∉ b.ticketIds) (want : ℕ) :
    (b.enqueue reader want).Ordered (log ++ [.queued reader]) := by
  rw [Ordered, Fifo.replay_concat h, ticketIds_enqueue hnew, Fifo.next, if_neg hnew]

theorem Ordered.withdraw (h : b.Ordered log) (reader : ℕ) (hsame : b'.ticketIds = b.ticketIds) :
    (b'.dropTicket reader).Ordered (log ++ [.withdrawn reader]) := by
  rw [Ordered, Fifo.replay_concat h, ticketIds_dropTicket (hsame ▸ h.nodup), hsame, Fifo.next]

theorem Polled.ordered (hpolled : b.Polled reader outcome b') (h : b.Ordered log) :
    b'.Ordered (log ++ outcome.events reader) := by
  cases hpolled with
  | granted hhead hpositive hfree =>
    rw [Ordered, Poll.events, Fifo.replay_concat h, Fifo.next]
    simp [ticketIds, hhead]
  | cancelled hsubset => exact h.withdraw reader rfl
  | wait =>
    rw [Poll.events, append_nil]
    exact h

end Polls

end PermitBook

end Kinewright.Media
