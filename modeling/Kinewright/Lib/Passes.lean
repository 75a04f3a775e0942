import Mathlib.Data.Finset.Card

/-!
# Passes over a finite set

A pass that only adds elements, and only elements of a bound, comes to rest after as many repetitions as
the bound has elements.
-/

namespace Finset

variable {α : Type*} {pass : Finset α → Finset α} {bound : Finset α}

/-- Repeating the pass keeps what is there. -/
theorem subset_iterate (hgrows : ∀ s, s ⊆ pass s) (n : ℕ) (s : Finset α) : s ⊆ pass^[n] s := by
  induction n generalizing s with
  | zero => exact Subset.refl s
  | succ n ih =>
    exact (hgrows s).trans (ih (pass s))

/-- After enough repetitions another one adds nothing. -/
theorem iterate_at_rest (hgrows : ∀ s, s ⊆ pass s) (hbound : ∀ s, s ⊆ bound → pass s ⊆ bound)
    {n : ℕ} {s : Finset α} (hs : s ⊆ bound) (hn : bound.card ≤ n + s.card) :
    pass (pass^[n] s) = pass^[n] s := by
  induction n generalizing s with
  | zero =>
    have hall : s = bound := eq_of_subset_of_card_le hs (by omega)
    exact Subset.antisymm (hall ▸ hbound s hs) (hgrows s)
  | succ n ih =>
    rw [Function.iterate_succ_apply]
    by_cases hrest : pass s = s
    · rw [hrest, Function.iterate_fixed hrest, hrest]
    · -- the pass added something, so there is one less to add
      have hlt : s.card < (pass s).card := card_lt_card (ssubset_iff_subset_ne.mpr ⟨hgrows s, Ne.symm hrest⟩)
      exact ih (hbound s hs) (by omega)

end Finset
