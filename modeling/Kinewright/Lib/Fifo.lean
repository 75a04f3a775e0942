import Mathlib.Data.List.Nodup

/-!
# First in, first out, with withdrawals

A queue serves its head. What is queued may also be withdrawn. A history of such a queue grants in
the order of queueing, among what is not withdrawn.
-/

namespace Fifo

open List Option

variable {α : Type*}

inductive Event (α : Type*)
  | queued (a : α)
  | granted (a : α)
  | withdrawn (a : α)

variable [DecidableEq α]

/-- The queue after an event. `none` if it queues what is queued, or does not grant the head. -/
def next (queue : List α) : Event α → Option (List α)
  | .queued a => if a ∈ queue then none else some (queue ++ [a])
  | .granted a => if queue.head? = some a then some queue.tail else none
  | .withdrawn a => some (queue.erase a)

/-- The queue after a history. -/
def replay (queue : List α) : List (Event α) → Option (List α)
  | [] => some queue
  | event :: events => (next queue event).bind fun queue => replay queue events

theorem replay_append (queue : List α) (events events' : List (Event α)) :
    replay queue (events ++ events') = (replay queue events).bind fun queue => replay queue events' := by
  induction events generalizing queue with
  | nil => rfl
  | cons event events ih =>
    rw [cons_append, replay, replay, bind_assoc]
    congr 1
    funext queue
    exact ih queue

variable {queue queue' : List α} {events : List (Event α)} {event : Event α}

theorem replay_concat (h : replay queue events = some queue') :
    replay queue (events ++ [event]) = next queue' event := by
  rw [replay_append, h, bind_some, replay]
  cases next queue' event with
  | none => rfl
  | some queue => rfl

theorem nodup_next (hnodup : queue.Nodup) (h : next queue event = some queue') : queue'.Nodup := by
  cases event with
  | queued a =>
    simp only [next, ite_none_left_eq_some, Option.some.injEq] at h
    obtain ⟨hnew, rfl⟩ := h
    rw [nodup_append]
    refine ⟨hnodup, nodup_singleton a, ?_⟩
    rintro b hb _ (_ | ⟨_, ⟨⟩⟩) rfl
    exact hnew hb
  | granted a =>
    simp only [next, ite_none_right_eq_some, Option.some.injEq] at h
    obtain ⟨-, rfl⟩ := h
    exact hnodup.tail
  | withdrawn a =>
    cases h
    exact hnodup.erase a

theorem nodup_replay (hnodup : queue.Nodup) (h : replay queue events = some queue') : queue'.Nodup := by
  induction events generalizing queue with
  | nil =>
    cases h
    exact hnodup
  | cons event events ih =>
    rw [replay, bind_eq_some_iff] at h
    obtain ⟨mid, hmid, h⟩ := h
    exact ih (nodup_next hnodup hmid) h

/-- One element stays ahead of another through an event that serves neither. -/
theorem ahead_next {a b : α} (h : next queue event = some queue') (hahead : [a, b].Sublist queue)
    (ha : event ≠ .granted a) (ha' : event ≠ .withdrawn a) (hb' : event ≠ .withdrawn b) :
    [a, b].Sublist queue' := by
  cases event with
  | queued c =>
    simp only [next, ite_none_left_eq_some, Option.some.injEq] at h
    obtain ⟨-, rfl⟩ := h
    exact hahead.trans (sublist_append_left queue [c])
  | granted c =>
    simp only [next, ite_none_right_eq_some, Option.some.injEq] at h
    obtain ⟨hhead, rfl⟩ := h
    obtain ⟨rest, rfl⟩ : ∃ rest, queue = c :: rest := head?_eq_some_iff.mp hhead
    have hne : a ≠ c := fun heq => ha (heq ▸ rfl)
    rcases sublist_cons_iff.mp hahead with hrest | ⟨_, heq, -⟩
    · exact hrest
    · exact absurd (List.cons.inj heq).1 hne
  | withdrawn c =>
    cases h
    have hkept : [a, b].erase c = [a, b] := by
      apply erase_of_not_mem
      have hne : a ≠ c := fun heq => ha' (heq ▸ rfl)
      have hne' : b ≠ c := fun heq => hb' (heq ▸ rfl)
      simp [hne.symm, hne'.symm]
    rw [← hkept]
    exact hahead.erase c

/-- What is behind another is not granted before that is served. -/
theorem not_overtaken {later : List (Event α)} {a b : α} (hnodup : queue.Nodup)
    (h : replay queue (events ++ .granted b :: later) = some queue') (hahead : [a, b].Sublist queue)
    (hb : .withdrawn b ∉ events) :
    .granted a ∈ events ∨ .withdrawn a ∈ events := by
  induction events generalizing queue with
  | nil =>
    rw [nil_append, replay, bind_eq_some_iff] at h
    obtain ⟨mid, hmid, -⟩ := h
    simp only [next, ite_none_right_eq_some] at hmid
    obtain ⟨rest, rfl⟩ : ∃ rest, queue = b :: rest := head?_eq_some_iff.mp hmid.1
    -- the head cannot be behind something
    have hbehind : b ∈ rest := by
      rcases sublist_cons_iff.mp hahead with hrest | ⟨_, heq, hrest⟩
      · exact hrest.subset (by simp)
      · cases heq
        exact hrest.subset (by simp)
    exact absurd hbehind (nodup_cons.mp hnodup).1
  | cons event events ih =>
    rw [cons_append, replay, bind_eq_some_iff] at h
    obtain ⟨mid, hmid, h⟩ := h
    rw [mem_cons, not_or] at hb
    by_cases ha : event = .granted a
    · exact .inl (by simp [ha])
    by_cases ha' : event = .withdrawn a
    · exact .inr (by simp [ha'])
    exact (ih (nodup_next hnodup hmid) h (ahead_next hmid hahead ha ha' fun heq => hb.1 heq.symm)
      hb.2).imp (mem_cons_of_mem _) (mem_cons_of_mem _)

/-- What is queued stays until it is served. -/
theorem mem_replay {a : α} (ha : a ∈ queue) (h : replay queue events = some queue')
    (hgranted : .granted a ∉ events) (hwithdrawn : .withdrawn a ∉ events) : a ∈ queue' := by
  induction events generalizing queue with
  | nil =>
    cases h
    exact ha
  | cons event events ih =>
    rw [replay, bind_eq_some_iff] at h
    obtain ⟨mid, hmid, h⟩ := h
    rw [mem_cons, not_or] at hgranted hwithdrawn
    refine ih ?_ h hgranted.2 hwithdrawn.2
    cases event with
    | queued c =>
      simp only [next, ite_none_left_eq_some, Option.some.injEq] at hmid
      obtain ⟨-, rfl⟩ := hmid
      exact mem_append_left _ ha
    | granted c =>
      simp only [next, ite_none_right_eq_some, Option.some.injEq] at hmid
      obtain ⟨hhead, rfl⟩ := hmid
      obtain ⟨rest, rfl⟩ : ∃ rest, queue = c :: rest := head?_eq_some_iff.mp hhead
      rcases mem_cons.mp ha with rfl | hrest
      · exact absurd rfl hgranted.1
      · exact hrest
    | withdrawn c =>
      cases hmid
      have hne : a ≠ c := fun heq => hwithdrawn.1 (heq ▸ rfl)
      exact (mem_erase_of_ne hne).mpr ha

/-- In the history, whatever is granted has had everything served that was queued before it and
not withdrawn. -/
def InOrder (log : List (Event α)) : Prop :=
  ∀ a b l₁ l₂ l₃ l₄, log = l₁ ++ .queued a :: (l₂ ++ .queued b :: (l₃ ++ .granted b :: l₄)) →
      .withdrawn b ∉ l₃ → .granted a ∈ l₂ ++ l₃ ∨ .withdrawn a ∈ l₂ ++ l₃

theorem inOrder_of_replay {log : List (Event α)} (h : replay [] log = some queue) : InOrder log := by
  rintro a b l₁ l₂ l₃ l₄ rfl hb
  by_cases hserved : .granted a ∈ l₂ ∨ .withdrawn a ∈ l₂
  · exact hserved.imp (mem_append_left _) (mem_append_left _)
  obtain ⟨hgranted, hwithdrawn⟩ := not_or.mp hserved
  rw [replay_append, bind_eq_some_iff] at h
  obtain ⟨q₁, h₁, h⟩ := h
  rw [replay, bind_eq_some_iff] at h
  obtain ⟨q₂, h₂, h⟩ := h
  rw [replay_append, bind_eq_some_iff] at h
  obtain ⟨q₃, h₃, h⟩ := h
  rw [replay, bind_eq_some_iff] at h
  obtain ⟨q₄, h₄, h⟩ := h
  have hnodup₂ := nodup_next (nodup_replay nodup_nil h₁) h₂
  have hnodup₄ := nodup_next (nodup_replay hnodup₂ h₃) h₄
  have ha₂ : a ∈ q₂ := by
    simp only [next, ite_none_left_eq_some, Option.some.injEq] at h₂
    rw [← h₂.2]
    simp
  have ha₃ : a ∈ q₃ := mem_replay ha₂ h₃ hgranted hwithdrawn
  have hahead : [a, b].Sublist q₄ := by
    simp only [next, ite_none_left_eq_some, Option.some.injEq] at h₄
    rw [← h₄.2]
    exact (singleton_sublist.mpr ha₃).append (Sublist.refl [b])
  exact (not_overtaken hnodup₄ h hahead hb).imp (mem_append_right _) (mem_append_right _)

end Fifo
