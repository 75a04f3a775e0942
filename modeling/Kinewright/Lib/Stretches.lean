import Mathlib.Data.List.Pairwise

/-!
# Maximal stretches of a list

The stretches of elements that satisfy a predicate, each as long as it can be, with what stands before and after it.
-/

namespace Stretches

open List

variable {α : Type*}

/-- A stretch of a list. -/
structure Stretch (α : Type*) where
  before : List α
  run : List α
  after : List α
  run_ne : run ≠ []

namespace Stretch

variable (s : Stretch α)

def first : α := s.run.head s.run_ne

def last : α := s.run.getLast s.run_ne

theorem first_mem : s.first ∈ s.run := head_mem s.run_ne

end Stretch

/-- A stretch that no neighbour prolongs. -/
structure Maximal (p : α → Bool) (l : List α) (s : Stretch α) : Prop where
  whole : s.before ++ s.run ++ s.after = l
  all : ∀ x ∈ s.run, p x = true
  opens : ∀ x ∈ s.before.getLast?, p x = false
  closes : ∀ x ∈ s.after.head?, p x = false

/-- The stretch that ends where the rest begins, when one is open. -/
def closed (before run after : List α) : List (Stretch α) := if h : run = [] then [] else [⟨before, run, after, h⟩]

/-- The walk over a list, with the stretch that is open. -/
def stretchesFrom (p : α → Bool) (before run : List α) : List α → List (Stretch α)
  | [] => closed before run []
  | x :: xs => if p x then stretchesFrom p before (run ++ [x]) xs
    else closed before run (x :: xs) ++ stretchesFrom p (before ++ run ++ [x]) [] xs

/-- The maximal stretches of a list, in order. -/
def stretches (p : α → Bool) (l : List α) : List (Stretch α) := stretchesFrom p [] [] l

theorem mem_closed {before run after : List α} {s : Stretch α} :
    s ∈ closed before run after ↔ s.before = before ∧ s.run = run ∧ s.after = after := by
  obtain ⟨before', run', after', hne⟩ := s
  unfold closed
  split
  · next h => exact ⟨fun hmem => absurd hmem not_mem_nil, fun heq => absurd (heq.2.1.trans h) hne⟩
  · simp

variable {p : α → Bool} {l : List α}

theorem stretchesFrom_maximal {before run : List α} (hrun : ∀ x ∈ run, p x = true)
    (hopens : ∀ x ∈ before.getLast?, p x = false) {s : Stretch α} (hs : s ∈ stretchesFrom p before run l) :
    Maximal p (before ++ run ++ l) s := by
  induction l generalizing before run with
  | nil =>
    obtain ⟨rfl, rfl, hafter⟩ := mem_closed.mp hs
    exact ⟨by rw [hafter], hrun, hopens, by simp [hafter]⟩
  | cons x xs ih =>
    rw [stretchesFrom] at hs
    by_cases hx : p x = true
    · rw [if_pos hx] at hs
      have hlong : ∀ y ∈ run ++ [x], p y = true := by
        intro y hy
        rcases mem_append.mp hy with hy | hy
        · exact hrun y hy
        · rwa [mem_singleton.mp hy]
      simpa using ih hlong hopens hs
    · rw [if_neg hx, mem_append] at hs
      rcases hs with hs | hs
      · obtain ⟨rfl, rfl, hafter⟩ := mem_closed.mp hs
        exact ⟨by rw [hafter], hrun, hopens, by simpa [hafter] using hx⟩
      · have hbefore : ∀ y ∈ (before ++ run ++ [x]).getLast?, p y = false := by simpa using hx
        simpa using ih (by simp) hbefore hs

/-- Every stretch of the list is maximal. -/
theorem maximal {s : Stretch α} (hs : s ∈ stretches p l) : Maximal p l s :=
  stretchesFrom_maximal (by simp) (by simp) hs

theorem stretchesFrom_complete {before run : List α} {x : α} (hx : x ∈ run ∨ x ∈ l ∧ p x = true) :
    ∃ s ∈ stretchesFrom p before run l, x ∈ s.run := by
  induction l generalizing before run with
  | nil =>
    have hrun : x ∈ run := hx.resolve_right fun h => not_mem_nil h.1
    exact ⟨⟨before, run, [], ne_nil_of_mem hrun⟩, mem_closed.mpr ⟨rfl, rfl, rfl⟩, hrun⟩
  | cons y ys ih =>
    rw [stretchesFrom]
    by_cases hy : p y = true
    · rw [if_pos hy]
      refine ih ?_
      rcases hx with hx | ⟨hx, hpx⟩
      · exact .inl (mem_append_left _ hx)
      · rcases mem_cons.mp hx with rfl | hx
        · exact .inl (by simp)
        · exact .inr ⟨hx, hpx⟩
    · rw [if_neg hy]
      rcases hx with hx | ⟨hx, hpx⟩
      · refine ⟨⟨before, run, y :: ys, ne_nil_of_mem hx⟩, ?_, hx⟩
        exact mem_append_left _ (mem_closed.mpr ⟨rfl, rfl, rfl⟩)
      · have htail : x ∈ ys := by
          rcases mem_cons.mp hx with rfl | hx
          · exact absurd hpx hy
          · exact hx
        obtain ⟨s, hs, hmem⟩ : ∃ s ∈ stretchesFrom p (before ++ run ++ [y]) [] ys, x ∈ s.run := ih (.inr ⟨htail, hpx⟩)
        exact ⟨s, mem_append_right _ hs, hmem⟩

/-- Every element that satisfies the predicate is in a stretch. -/
theorem exists_stretch {x : α} (hx : x ∈ l) (hp : p x = true) : ∃ s ∈ stretches p l, x ∈ s.run :=
  stretchesFrom_complete (.inr ⟨hx, hp⟩)

/-- A stretch that begins after the end of another one. -/
def Later (p : α → Bool) (s t : Stretch α) : Prop :=
  ∃ x between, p x = false ∧ s.after = x :: (between ++ t.run ++ t.after)

theorem stretchesFrom_within {before run : List α} {s : Stretch α} (hs : s ∈ stretchesFrom p before run l) :
    ∃ between, run ++ l = between ++ s.run ++ s.after := by
  induction l generalizing before run with
  | nil =>
    obtain ⟨-, hrun, hafter⟩ := mem_closed.mp hs
    exact ⟨[], by simp [hrun, hafter]⟩
  | cons x xs ih =>
    rw [stretchesFrom] at hs
    by_cases hx : p x = true
    · rw [if_pos hx] at hs
      obtain ⟨between, hl⟩ := ih hs
      exact ⟨between, by rw [← hl, append_assoc]; rfl⟩
    · rw [if_neg hx, mem_append] at hs
      rcases hs with hs | hs
      · obtain ⟨-, hrun, hafter⟩ := mem_closed.mp hs
        exact ⟨[], by simp [hrun, hafter]⟩
      · obtain ⟨between, hl⟩ := ih hs
        exact ⟨run ++ x :: between, by rw [nil_append] at hl; simp [hl]⟩

theorem stretchesFrom_pairwise (before run l : List α) : (stretchesFrom p before run l).Pairwise (Later p) := by
  induction l generalizing before run with
  | nil =>
    unfold stretchesFrom closed
    split <;> simp
  | cons x xs ih =>
    rw [stretchesFrom]
    by_cases hx : p x = true
    · rw [if_pos hx]
      exact ih _ _
    · rw [if_neg hx, pairwise_append]
      refine ⟨by unfold closed; split <;> simp, ih _ _, ?_⟩
      intro s hs t ht
      obtain ⟨-, -, hafter⟩ := mem_closed.mp hs
      obtain ⟨between, hl⟩ := stretchesFrom_within ht
      exact ⟨x, between, by simpa using hx, by rw [hafter, ← hl, nil_append]⟩

/-- The stretches stand in the order of the list, with an element between them that breaks them. -/
theorem stretches_pairwise (l : List α) : (stretches p l).Pairwise (Later p) := stretchesFrom_pairwise [] [] l

theorem stretches_trichotomy {s t : Stretch α} (hs : s ∈ stretches p l) (ht : t ∈ stretches p l) :
    s = t ∨ Later p s t ∨ Later p t s := by
  have hsymm : Std.Symm fun s t : Stretch α => s = t ∨ Later p s t ∨ Later p t s :=
    ⟨fun _ _ h => h.imp Eq.symm Or.symm⟩
  have hpairwise : (stretches p l).Pairwise fun s t => s = t ∨ Later p s t ∨ Later p t s :=
    (stretches_pairwise l).imp fun h => .inr (.inl h)
  exact hpairwise.forall_of_forall (fun _ _ => .inl rfl) hs ht

end Stretches
