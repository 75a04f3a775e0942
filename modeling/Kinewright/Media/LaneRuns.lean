import Kinewright.Media.Lane

/-!
# Permits over whole runs

Each event of the lane keeps the two records of the permits in agreement, so every run does.
-/

namespace Kinewright.Media

open Option Readers

variable {K F E : Type} [DecidableEq K] [Weighed F]

namespace Lane

variable {l l' : Lane K F E} {id : ℕ}

/-- Every event keeps the agreement. -/
theorem Agree.step (h : l.Agree) {event : LaneEvent K F E} (hstep : l.step event = some l') : l.Keeps l' := by
  cases event with
  | call call =>
    rw [Lane.step] at hstep
    split at hstep
    · cases hstep
    · rename_i hallowed
      obtain ⟨result, hcall, rfl⟩ := map_eq_some_iff.mp hstep
      rw [not_or] at hallowed
      refine h.call ?_ (by simpa using hallowed.1) hcall
      intro id hid
      by_contra hphase
      exact hallowed.2 ⟨id, hid, hphase⟩
  | join id =>
    obtain ⟨hphase, hstep⟩ := ite_none_right_eq_some.mp hstep
    obtain rfl := Option.some.inj hstep
    exact h.join hphase
  | enqueue id =>
    rw [Lane.step] at hstep
    split at hstep
    · rename_i want hphase
      obtain rfl := Option.some.inj hstep
      have hentry := h.entries id
      rw [hphase] at hentry
      rw [if_neg fun hmem => nomatch hentry.queued.mp hmem]
      exact h.enqueue hphase
    · cases hstep
  | poll id =>
    obtain ⟨hphase, hstep⟩ := ite_none_right_eq_some.mp hstep
    obtain rfl := Option.some.inj hstep
    exact h.poll hphase
  | revoke id =>
    obtain ⟨hphase, hstep⟩ := ite_none_right_eq_some.mp hstep
    obtain rfl := Option.some.inj hstep
    exact h.revoke hphase
  | granted id now =>
    rw [Lane.step] at hstep
    split at hstep
    · rename_i permits hphase
      obtain rfl := Option.some.inj hstep
      exact h.granted hphase now
    · rename_i hphase
      obtain rfl := Option.some.inj hstep
      exact h.barred hphase now
    · cases hstep
  | release id =>
    obtain ⟨hphase, hstep⟩ := ite_none_right_eq_some.mp hstep
    obtain rfl := Option.some.inj hstep
    exact h.release hphase
  | closed id =>
    obtain ⟨hphase, hstep⟩ := ite_none_right_eq_some.mp hstep
    obtain rfl := Option.some.inj hstep
    exact h.closed hphase
  | refuse id error =>
    obtain ⟨hphase, hstep⟩ := ite_none_right_eq_some.mp hstep
    obtain rfl := Option.some.inj hstep
    exact h.refuse hphase error
  | unwind id =>
    obtain ⟨hphase, hstep⟩ := ite_none_right_eq_some.mp hstep
    obtain rfl := Option.some.inj hstep
    exact h.move hphase (.refl id l.readers) (.inr (.inr rfl))
  | forget id =>
    rw [Lane.step] at hstep
    split at hstep
    · rename_i queued hphase
      obtain rfl := Option.some.inj hstep
      exact h.forget hphase
    · cases hstep
  | exited id error =>
    obtain ⟨hphase, hstep⟩ := ite_none_right_eq_some.mp hstep
    obtain rfl := Option.some.inj hstep
    exact h.exited hphase error
  | cancel id =>
    obtain ⟨-, hstep⟩ := ite_none_right_eq_some.mp hstep
    obtain rfl := Option.some.inj hstep
    exact h.cancel id
  | shutdown =>
    obtain rfl := Option.some.inj hstep
    exact h.shutdown

/-- Every run keeps the agreement. -/
theorem Agree.run (h : l.Agree) {events : List (LaneEvent K F E)} (hrun : l.run events = some l') : l.Keeps l' := by
  induction events generalizing l with
  | nil =>
    obtain rfl := Option.some.inj hrun
    exact h.keeps_refl
  | cons event events ih =>
    obtain ⟨next, hstep, hrest⟩ := bind_eq_some_iff.mp hrun
    have hkeeps := h.step hstep
    exact hkeeps.trans (ih hkeeps.agree hrest)

/-! ### What the permits obey -/

/-- The book has nothing of the reader, and a cancel of it does nothing. -/
structure Gone (b : PermitBook) (id : ℕ) : Prop where
  held : b.held.get? id = none
  ticket : id ∉ b.ticketIds
  live : id ∉ b.live
  cancelled : id ∉ b.cancelled
  cancel : b.cancel id = b

/-- What the permits obey between any two events of the lane. -/
structure Permitted (l : Lane K F E) : Prop where
  within : l.book.inUse ≤ l.book.pool
  /-- The scheduler and the book agree on every reader's permits, but between the two halves of a
  grant or of a return. -/
  threads : ∀ slot ∈ l.readers.slots, (l.phase slot.id).settled → slot.threads = l.book.heldBy slot.id
  taken : ∀ id permits, l.phase id = .granted permits → l.book.heldBy id = permits.getD 0
  returned : ∀ id, l.phase id = .released ∨ l.phase id = .forgotten → l.book.heldBy id = 0
  once : l.book.ticketIds.Nodup
  /-- A ticket is in the queue while its reader waits there, and if its source's authority ends
  meanwhile until the reader is forgotten. -/
  tickets : ∀ id, id ∈ l.book.ticketIds ↔ (l.phase id).queues
  asked : ∀ slot ∈ l.readers.slots, slot.state = .permitWait → (l.phase slot.id).asks
  waits : ∀ slot ∈ l.readers.slots, (l.phase slot.id).asks → slot.state = .permitWait ∨ slot.state = .retiring
  queue : Fifo.replay [] l.log = some l.book.ticketIds
  order : Fifo.InOrder l.log
  gone : ∀ id, l.phase id = .absent ∨ l.phase id = .forgotten → Gone l.book id

omit [DecidableEq K] [Weighed F] in
theorem gone_of_has {b : PermitBook} {phase : Phase} (h : b.Has id phase)
    (hphase : phase = .absent ∨ phase = .forgotten) : Gone b id := by
  have hlive : id ∉ b.live := by
    rw [h.joined]
    rcases hphase with rfl | rfl <;> exact Bool.false_ne_true
  refine ⟨h.bare ?_, ?_, hlive, fun hcancelled => hlive (h.cancelled hcancelled), if_pos hlive⟩
  · rcases hphase with rfl | rfl <;> rfl
  · rw [h.queued]
    rcases hphase with rfl | rfl <;> exact Bool.false_ne_true

omit [DecidableEq K] [Weighed F] in
theorem Agree.permitted (h : l.Agree) : l.Permitted where
  within := h.fits.within
  threads := h.threads
  taken := by
    intro id permits hphase
    rw [PermitBook.heldBy, (h.entries id).given permits hphase]
  returned := by
    intro id hphase
    have hbare : (l.phase id).bare := by
      rcases hphase with hphase | hphase
      all_goals
        rw [hphase]
        rfl
    rw [PermitBook.heldBy, (h.entries id).bare hbare]
    rfl
  once := h.ordered.nodup
  tickets := fun id => (h.entries id).queued
  asked := fun slot hslot => (h.sits slot hslot).asked
  waits := fun slot hslot => (h.sits slot hslot).waits
  queue := h.ordered
  order := Fifo.inOrder_of_replay h.ordered
  gone := fun id hphase => gone_of_has (h.entries id) hphase

theorem run_append (l : Lane K F E) (events events' : List (LaneEvent K F E)) :
    l.run (events ++ events') = (l.run events).bind fun l => l.run events' := by
  induction events generalizing l with
  | nil => rfl
  | cons event events ih =>
    rw [List.cons_append, run, run, bind_assoc]
    congr 1
    funext l
    exact ih l

/-- A reader that exits is gone for good. -/
theorem Agree.exits (h : l.Agree) {error : Option E} {events : List (LaneEvent K F E)}
    (hrun : l.run (.exited id error :: events) = some l') : l'.Departed id := by
  obtain ⟨next, hstep, hrest⟩ := bind_eq_some_iff.mp hrun
  have hkeeps := h.step hstep
  obtain ⟨hphase, hstep⟩ := ite_none_right_eq_some.mp hstep
  obtain rfl := Option.some.inj hstep
  refine (hkeeps.agree.run hrest).departed id ⟨by simp, ?_⟩
  -- it was there, so it had been started
  by_contra hnew
  have hfresh : l.readers.nextId ≤ id := by
    cases error with
    | some error => exact (slots_failStart l.readers id error).1 ▸ not_lt.mp hnew
    | none => exact (slots_exited l.readers id).1 ▸ not_lt.mp hnew
  have habsent := h.fresh id hfresh
  rw [hphase] at habsent
  cases habsent

/-- Whatever the order of the events, between any two of them the permits held fit in the pool and
agree with the slots, the tickets are the readers' that wait, they have been granted in order, and
nothing stays of a reader that exited. -/
theorem permits_agree (parallelism budget : ℕ) (events : List (LaneEvent K F E)) {l : Lane K F E}
    (hrun : (new parallelism budget).run events = some l) :
    l.Permitted ∧ ∀ before id error after, events = before ++ .exited id error :: after →
      Gone l.book id ∧ ∀ slot ∈ l.readers.slots, slot.id ≠ id := by
  have hnew : (new parallelism budget : Lane K F E).Agree := agree_new parallelism budget
  have hagree := (hnew.run hrun).agree
  refine ⟨hagree.permitted, ?_⟩
  rintro before id error after rfl
  rw [run_append] at hrun
  obtain ⟨mid, hbefore, hafter⟩ := bind_eq_some_iff.mp hrun
  have hgone := (hnew.run hbefore).agree.exits hafter
  refine ⟨gone_of_has (hagree.entries id) (.inl hgone.absent), ?_⟩
  rintro slot hslot rfl
  exact (hagree.sits slot hslot).here hgone.absent

/-- A job is posted, its reader starts and asks for permits, and its ticket is queued. -/
def queueDemo : List (LaneEvent ℕ Fr String) :=
  [.call (.post demoJob (KeyedMap.empty.insert 0 10) 5 [] 0), .call (.admitRequired 5 (fun _ => false) []), .join 0,
    .call (.next 0 0 false),
    .enqueue 0]

/-- The source is forgotten, which cancels the ticket. The reader is granted before the cancel
arrives, retires and exits, and then it arrives. -/
def lateCancelDemo : List (LaneEvent ℕ Fr String) :=
  [.call (.forget fun _ => false), .poll 0, .granted 0 0, .call (.next 0 0 false), .forget 0]

theorem permits_agree_demo : ∃ l : Lane ℕ Fr String,
    (new 2 50).run (queueDemo ++ lateCancelDemo ++ (.exited 0 none :: [.cancel 0])) = some l ∧
      l.Permitted ∧ Gone l.book 0 := by
  have hsome : ((new 2 50 : Lane ℕ Fr String).run
      (queueDemo ++ lateCancelDemo ++ (.exited 0 none :: [.cancel 0]))).isSome := by decide
  obtain ⟨l, hrun⟩ := isSome_iff_exists.mp hsome
  obtain ⟨hpermitted, hexited⟩ := permits_agree 2 50 _ hrun
  exact ⟨l, hrun, hpermitted, (hexited _ 0 none _ rfl).1⟩

/-- The records as a strict reading has them: each slot has what the book holds, and a ticket is
queued exactly for a reader in `PermitWait`. -/
def InStep (l : Lane K F E) : Prop :=
  (∀ slot ∈ l.readers.slots, slot.threads = l.book.heldBy slot.id) ∧
    ∀ id, id ∈ l.book.ticketIds ↔ ∃ slot ∈ l.readers.slots, slot.id = id ∧ slot.state = .permitWait

omit [DecidableEq K] [Weighed F] in
theorem not_inStep_of_ticket (hticket : id ∈ l.book.ticketIds)
    (hslots : ∀ slot ∈ l.readers.slots, slot.state ≠ .permitWait) : ¬ InStep l := by
  rintro ⟨-, htickets⟩
  obtain ⟨slot, hslot, -, hstate⟩ := (htickets id).mp hticket
  exact hslots slot hslot hstate

/-- They are not in step after every event: a reader that retires while it waits keeps its ticket
until it looks at the book, one whose source's authority ends keeps it until it exits, and a grant
reaches the book before the slot. -/
theorem permits_not_in_step : (∃ l : Lane ℕ Fr String,
      (new 2 50).run (queueDemo ++ [.call .retireAll]) = some l ∧ ¬ InStep l) ∧
    (∃ l : Lane ℕ Fr String, (new 2 50).run (queueDemo ++ [.revoke 0, .granted 0 0, .refuse 0 "revoked"]) = some l ∧
        ¬ InStep l) ∧
    ∃ l : Lane ℕ Fr String, (new 2 50).run (queueDemo ++ [.poll 0]) = some l ∧ ¬ InStep l := by
  refine ⟨?_, ?_, ?_⟩
  · have hany : ((new 2 50 : Lane ℕ Fr String).run (queueDemo ++ [.call .retireAll])).any fun l =>
          0 ∈ l.book.ticketIds ∧ ∀ slot ∈ l.readers.slots, slot.state ≠ .permitWait := by decide
    obtain ⟨l, hrun, hl⟩ := (any_eq_true _ _).mp hany
    obtain ⟨hticket, hslots⟩ := of_decide_eq_true hl
    exact ⟨l, hrun, not_inStep_of_ticket hticket hslots⟩
  · have hany : ((new 2 50 : Lane ℕ Fr String).run
        (queueDemo ++ [.revoke 0, .granted 0 0, .refuse 0 "revoked"])).any fun l =>
          0 ∈ l.book.ticketIds ∧ ∀ slot ∈ l.readers.slots, slot.state ≠ .permitWait := by decide
    obtain ⟨l, hrun, hl⟩ := (any_eq_true _ _).mp hany
    obtain ⟨hticket, hslots⟩ := of_decide_eq_true hl
    exact ⟨l, hrun, not_inStep_of_ticket hticket hslots⟩
  · have hany : ((new 2 50 : Lane ℕ Fr String).run (queueDemo ++ [.poll 0])).any fun l =>
        ∃ slot ∈ l.readers.slots, slot.threads ≠ l.book.heldBy slot.id := by decide
    obtain ⟨l, hrun, hl⟩ := (any_eq_true _ _).mp hany
    obtain ⟨slot, hslot, hne⟩ := of_decide_eq_true hl
    exact ⟨l, hrun, fun hstep => hne (hstep.1 slot hslot)⟩

end Lane

end Kinewright.Media
