import Mathlib.Data.List.Basic

/-!
# Occurrences

The elements of a list that are of a kind, in order: the `k`-th one of them and its index among all elements.
-/

namespace List

variable {α : Type*} {p : α → Bool} {f : α → α} {xs : List α} {x : α} {i k : ℕ}

/-- An element of the kind is the occurrence that the ones before it count to. -/
theorem getElem?_filter_countP (h : xs[i]? = some x) (hx : p x) : (xs.filter p)[(xs.take i).countP p]? = some x := by
  induction xs generalizing i with
  | nil => cases h
  | cons y ys ih =>
    cases i with
    | zero =>
      rw [getElem?_cons_zero, Option.some.injEq] at h
      rw [h, filter_cons_of_pos hx]
      rfl
    | succ i =>
      by_cases hy : p y = true
      · rw [take_succ_cons, countP_cons_of_pos hy, filter_cons_of_pos hy, getElem?_cons_succ, ih h]
      · rw [take_succ_cons, countP_cons_of_neg hy, filter_cons_of_neg hy, ih h]

/-- The occurrences with their indices. -/
theorem getElem?_filter_zipIdx {n : ℕ} (h : ((xs.zipIdx n).filter fun entry => p entry.1)[k]? = some (x, i)) :
    ∃ j, i = n + j ∧ xs[j]? = some x ∧ p x ∧ (xs.take j).countP p = k := by
  induction xs generalizing n k with
  | nil => cases h
  | cons y ys ih =>
    rw [zipIdx_cons] at h
    by_cases hy : p y = true
    · rw [filter_cons_of_pos (by exact hy)] at h
      cases k with
      | zero =>
        obtain ⟨rfl, rfl⟩ := h
        exact ⟨0, rfl, rfl, hy, rfl⟩
      | succ k =>
        obtain ⟨j, rfl, hj, hx, hcount⟩ := ih h
        refine ⟨j + 1, by omega, hj, hx, ?_⟩
        rw [take_succ_cons, countP_cons_of_pos hy, hcount]
    · rw [filter_cons_of_neg (by exact hy)] at h
      obtain ⟨j, rfl, hj, hx, hcount⟩ := ih h
      refine ⟨j + 1, by omega, hj, hx, ?_⟩
      rw [take_succ_cons, countP_cons_of_neg hy, hcount]

theorem length_filter_zipIdx (p : α → Bool) (xs : List α) (n : ℕ) :
    ((xs.zipIdx n).filter fun entry => p entry.1).length = (xs.filter p).length := by
  induction xs generalizing n with
  | nil => rfl
  | cons y ys ih =>
    rw [zipIdx_cons]
    by_cases hy : p y = true
    · rw [filter_cons_of_pos (by exact hy), filter_cons_of_pos hy, length_cons, length_cons, ih]
    · rw [filter_cons_of_neg (by exact hy), filter_cons_of_neg hy, ih]

/-- To change an element of the kind is to change the occurrence that it is. -/
theorem filter_modify_of_pos (h : xs[i]? = some x) (hx : p x) (hf : p (f x)) :
    (xs.modify i f).filter p = (xs.filter p).modify ((xs.take i).countP p) f := by
  induction xs generalizing i with
  | nil => cases h
  | cons y ys ih =>
    cases i with
    | zero =>
      rw [getElem?_cons_zero, Option.some.injEq] at h
      subst h
      rw [modify_zero_cons, filter_cons_of_pos hf, filter_cons_of_pos hx, take_zero, countP_nil, modify_zero_cons]
    | succ i =>
      by_cases hy : p y = true
      · rw [modify_succ_cons, filter_cons_of_pos hy, filter_cons_of_pos hy, take_succ_cons,
          countP_cons_of_pos hy, modify_succ_cons, ih h]
      · rw [modify_succ_cons, filter_cons_of_neg hy, filter_cons_of_neg hy, take_succ_cons, countP_cons_of_neg hy, ih h]

/-- To change an element of another kind to one changes no occurrence. -/
theorem filter_modify_of_neg (h : xs[i]? = some x) (hx : ¬ p x) (hf : ¬ p (f x)) :
    (xs.modify i f).filter p = xs.filter p := by
  induction xs generalizing i with
  | nil => cases h
  | cons y ys ih =>
    cases i with
    | zero =>
      rw [getElem?_cons_zero, Option.some.injEq] at h
      subst h
      rw [modify_zero_cons, filter_cons_of_neg hf, filter_cons_of_neg hx]
    | succ i =>
      by_cases hy : p y = true
      · rw [modify_succ_cons, filter_cons_of_pos hy, filter_cons_of_pos hy, ih h]
      · rw [modify_succ_cons, filter_cons_of_neg hy, filter_cons_of_neg hy, ih h]

/-- What a change of an element keeps, it keeps of the list. -/
theorem map_modify_of_fixed {β : Type*} {g : α → β} (h : ∀ x ∈ xs[i]?, g (f x) = g x) :
    (xs.modify i f).map g = xs.map g := by
  refine ext_getElem? fun j => ?_
  rw [getElem?_map, getElem?_map]
  by_cases hij : i = j
  · subst hij
    rw [getElem?_modify_eq]
    cases hx : xs[i]? with
    | none => rfl
    | some x => exact congrArg some (h x hx)
  · rw [getElem?_modify_ne f xs hij]

/-- A change that does nothing to the element it is made to. -/
theorem modify_eq_of_fixed (h : ∀ x ∈ xs[i]?, f x = x) : xs.modify i f = xs := by
  have hmap := map_modify_of_fixed (g := fun x => x) h
  rwa [map_id', map_id'] at hmap

/-- The elements of a list with one more. -/
theorem getElem?_concat_eq_some {y : α} (h : (xs ++ [y])[k]? = some x) : xs[k]? = some x ∨ k = xs.length ∧ x = y := by
  rcases Nat.lt_trichotomy k xs.length with hlt | heq | hgt
  · rw [getElem?_append_left hlt] at h
    exact Or.inl h
  · subst heq
    rw [getElem?_concat_length, Option.some.injEq] at h
    exact Or.inr ⟨rfl, h.symm⟩
  · rw [getElem?_eq_none (by rw [length_append, length_singleton]; omega)] at h
    cases h

end List
