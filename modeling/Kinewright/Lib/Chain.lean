import Mathlib.Data.List.Basic

/-!
# Chains

A list that only grows at its end, in which every element says its place, counted from one, and the
key of the element before it.
-/

namespace Chain

variable {α κ : Type*} {number : α → ℕ} {previous : α → Option κ} {key : α → κ} {as : List α} {a : α}

/-- Every element says its place and names the one before it. -/
def Chained (number : α → ℕ) (previous : α → Option κ) (key : α → κ) (as : List α) : Prop :=
  ∀ n a, as[n]? = some a → number a = n + 1 ∧ previous a = (as.take n).getLast?.map key

theorem Chained.nil : Chained number previous key [] := fun n a h => by
  cases h

/-- A chain grows by an element that says its length and names its last element. -/
theorem Chained.concat (h : Chained number previous key as) (hnumber : number a = as.length + 1)
    (hprevious : previous a = as.getLast?.map key) :
    Chained number previous key (as ++ [a]) := by
  intro n b hb
  rcases Nat.lt_or_ge n as.length with hlt | hge
  · rw [List.getElem?_append_left hlt] at hb
    rw [List.take_append_of_le_length (Nat.le_of_lt hlt)]
    exact h n b hb
  · obtain ⟨hn, rfl⟩ : n = as.length ∧ a = b := by
      rw [List.getElem?_append_right hge, List.getElem?_singleton] at hb
      split at hb
      · exact ⟨by omega, Option.some.inj hb⟩
      · cases hb
    subst hn
    rw [List.take_left]
    exact ⟨hnumber, hprevious⟩

/-- The last element of a chain says how long the chain is. -/
theorem Chained.number_last (h : Chained number previous key as) (ha : as.getLast? = some a) :
    number a = as.length := by
  rw [List.getLast?_eq_getElem?] at ha
  have hlt := (List.getElem?_eq_some_iff.mp ha).1
  have hnumber := (h _ a ha).1
  omega

end Chain
