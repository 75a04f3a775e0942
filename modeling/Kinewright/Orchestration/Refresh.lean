import Kinewright.Orchestration.Winding

/-!
# The summaries of a run

What a run waits for and what it has to clean up are computed anew after a command. Both are then what
the validation of the projection asks for.
-/

namespace Kinewright.Orchestration

open Fallible Accounting List

variable  {s : RunProjection}

theorem exists_refreshWait (s : RunProjection) : ∃ wait, refreshWait s = { s with wait := wait } := by
  unfold refreshWait
  split
  · exact ⟨_, rfl⟩
  · split
    · exact ⟨_, rfl⟩
    · split
      · exact ⟨_, rfl⟩
      · exact ⟨_, rfl⟩

theorem refreshWait_refs (s : RunProjection) : (refreshWait s).wait.refs = s.wait.refs := by
  unfold refreshWait
  split
  · rfl
  · next hexternal =>
    have hrefs : s.wait.refs = [] := by
      cases hwait : s.wait with
      | files detail | provider detail => exact absurd (by rw [hwait]; rfl) hexternal
      | _ => rfl
    rw [hrefs]
    split
    · rfl
    · split
      · rfl
      · rfl

/-! ## What is waited for -/

/-- The children that are awaited are tasks of the run. -/
theorem awaitedChildren_subset (hdeliveries : ∀ delivery ∈ s.deliveries, delivery.task ∈ s.taskIds) :
    awaitedChildren s ⊆ s.taskIds.toFinset := by
  intro id hid
  rw [mem_toFinset]
  rcases Finset.mem_union.mp hid with h | h
  · obtain ⟨_, _, hchild⟩ := mem_flatMap.mp (mem_toFinset.mp h)
    have hany := (mem_filter.mp hchild).2
    simp only [any_eq_true, Bool.and_eq_true, decide_eq_true_eq] at hany
    obtain ⟨child, hmem, rfl, _⟩ := hany
    exact mem_taskIds.mpr ⟨child, hmem, rfl⟩
  · obtain ⟨delivery, hmem, rfl⟩ := mem_map.mp (mem_toFinset.mp h)
    exact hdeliveries delivery (mem_filter.mp hmem).1

/-- The children that a run waits for are as the validation asks. -/
theorem badChildren_refreshWait (hcount : s.tasks.length ≤ TASK_LIMIT)
    (hdeliveries : ∀ delivery ∈ s.deliveries, delivery.task ∈ s.taskIds) :
    ∀ children ∈ (refreshWait s).wait.children?, badChildren s children = false := by
  intro children hchildren
  unfold refreshWait at hchildren
  split at hchildren
  · next hexternal =>
    cases hwait : s.wait with
    | files detail | provider detail => rw [hwait] at hchildren; cases hchildren
    | _ => rw [hwait] at hexternal; cases hexternal
  · split at hchildren
    · cases hchildren
    · split at hchildren
      · cases hchildren
      · next hsome =>
        obtain rfl : (awaitedChildren s).sort (· ≤ ·) = children := Option.some.inj hchildren
        have hsubset := awaitedChildren_subset hdeliveries
        have hcard : (awaitedChildren s).card ≤ s.tasks.length := by
          refine (Finset.card_le_card hsubset).trans ?_
          refine (toFinset_card_le _).trans ?_
          rw [RunProjection.taskIds, length_map]
        rw [badChildren, Bool.or_eq_false_iff, Bool.or_eq_false_iff, any_eq_false]
        refine ⟨⟨?_, ?_⟩, ?_⟩
        · rw [decide_eq_false_iff_not]
          intro hnil
          have hempty := congrArg List.length hnil
          rw [Finset.length_sort, length_nil, Finset.card_eq_zero] at hempty
          exact hsome hempty
        · rw [decide_eq_false_iff_not, Finset.length_sort]
          omega
        · intro id hid
          rw [decide_eq_true_eq, not_not]
          exact mem_toFinset.mp (hsubset ((Finset.mem_sort _).mp hid))

/-! ## What there is to clean up -/

theorem refreshCleanup_required (s : RunProjection) : (refreshCleanup s).required = s.required := rfl

theorem refreshCleanup_isBlocked (s : RunProjection) : (refreshCleanup s).isBlocked = s.isBlocked := rfl

/-- Attempts that are distinct have distinct things to clean up. -/
theorem nodup_required (h : (s.attempts.map fun reservation => reservation.identity.attempt).Nodup) :
    s.required.Nodup := by
  have hattempts : (s.required.map CleanupIdentity.attempt).Nodup := by
    rw [RunProjection.required, map_map]
    exact h.sublist (filter_sublist.map _)
  exact hattempts.of_map _

theorem sameCleanupSet_self {identities : List CleanupIdentity} (h : identities.Nodup) :
    sameCleanupSet identities identities = .ok () := by
  rw [sameCleanupSet, refuse_eq_ok]
  rintro (hlength | ⟨identity, hmem, hcount⟩)
  · exact hlength rfl
  · exact hcount (count_eq_one_of_mem h hmem)

/-- The new summary of the cleanup is right, unless the old one said that something is blocked and
nothing is, or nothing was and something is. -/
theorem checkCleanupSummary_refresh (hids : (s.attempts.map fun reservation => reservation.identity.attempt).Nodup)
    (hsettled : s.required = [] → s.isBlocked = false)
    (hpending : (∀ identities reason, s.cleanup ≠ .blocked identities reason) → s.isBlocked = false) :
    checkCleanupSummary (refreshCleanup s) = .ok () ↔ s.required ≠ [] →
      ∀ identities reason, s.cleanup = .blocked identities reason → s.isBlocked = true := by
  have hsame := sameCleanupSet_self (nodup_required hids)
  unfold checkCleanupSummary
  rw [refreshCleanup_required, refreshCleanup_isBlocked]
  by_cases hrequired : s.required = []
  · simp [refreshCleanup, hrequired, hsettled hrequired]
  · rcases hcleanup : s.cleanup with _ | identities | ⟨identities, reason⟩
    case blocked =>
      cases hblocked : s.isBlocked with
      | false => simp [refreshCleanup, hrequired, hcleanup]
      | true => simp [refreshCleanup, hrequired, hcleanup, hsame]
    all_goals
      have hopen := hpending fun identities reason h => by rw [hcleanup] at h; cases h
      simp [refreshCleanup, hrequired, hcleanup, hopen, hsame]

end Kinewright.Orchestration
