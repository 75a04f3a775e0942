import Mathlib.Data.List.Basic
import Mathlib.Data.List.TakeDrop

/-!
# Separated segments with end offsets

A list of segments stored as one flat list, with a separator between them, and the offset at which
each segment ends. The offsets let a tail be replaced without reading the segments before it:
`Joined.replaceTail` says that cutting the flat list at a recorded offset and appending a new tail
stores exactly the new segments.
-/

namespace Segments

open List

variable {α : Type*} (sep : α)

/-- One stored segment: all but the very first follow a separator. -/
def stored (first : Bool) (segment : List α) : List α := if first then segment else sep :: segment

/-- The flat list of the segments from some point on; `first` if no segment lies before it. -/
def joinedFrom (first : Bool) : List (List α) → List α
  | [] => []
  | x :: xs => stored sep first x ++ joinedFrom false xs

/-- The offsets at which the segments end, if the first one is stored from `start`. -/
def endsFrom (first : Bool) (start : ℕ) : List (List α) → List ℕ
  | [] => []
  | x :: xs =>
    let stop := start + (stored sep first x).length
    stop :: endsFrom false stop xs

/-- `flat` and `ends` store the segments. -/
structure Joined (flat : List α) (ends : List ℕ) (segments : List (List α)) : Prop where
  flat_eq : flat = joinedFrom sep true segments
  ends_eq : ends = endsFrom sep true 0 segments

/-- The offset at which the segment number `k` is stored, separator included. -/
def startOf (ends : List ℕ) (k : ℕ) : ℕ := if k = 0 then 0 else ends.getD (k - 1) 0

variable {sep}

/-- The flat list is the segments with separators between them. -/
theorem joinedFrom_eq_intercalate (segments : List (List α)) :
    joinedFrom sep true segments = [sep].intercalate segments := by
  have htail (x : List α) (xs : List (List α)) :
      x ++ joinedFrom sep false xs = [sep].intercalate (x :: xs) := by
    induction xs generalizing x with
    | nil => simp [joinedFrom]
    | cons y ys ih =>
      rw [intercalate_cons_cons, ← ih y]
      simp [joinedFrom, stored]
  rcases segments with _ | ⟨x, xs⟩
  · rfl
  · exact htail x xs

theorem joinedFrom_append (first : Bool) (xs ys : List (List α)) : joinedFrom sep first (xs ++ ys)
      = joinedFrom sep first xs ++ joinedFrom sep (first && xs.isEmpty) ys := by
  induction xs generalizing first with
  | nil => simp [joinedFrom]
  | cons x xs ih => simp [joinedFrom, ih]

theorem endsFrom_append (first : Bool) (start : ℕ) (xs ys : List (List α)) : endsFrom sep first start (xs ++ ys)
      = endsFrom sep first start xs ++
        endsFrom sep (first && xs.isEmpty) (start + (joinedFrom sep first xs).length) ys := by
  induction xs generalizing first start with
  | nil => simp [joinedFrom, endsFrom]
  | cons x xs ih => simp [joinedFrom, endsFrom, ih, Nat.add_assoc]

@[simp] theorem length_endsFrom (first : Bool) (start : ℕ) (xs : List (List α)) :
    (endsFrom sep first start xs).length = xs.length := by
  induction xs generalizing first start with
  | nil => rfl
  | cons x xs ih => rw [endsFrom, length_cons, ih, length_cons]

/-- The last segment ends where the flat list does. -/
theorem getLast?_endsFrom (first : Bool) (start : ℕ) (xs : List (List α)) (x : List α) :
    (endsFrom sep first start (xs ++ [x])).getLast? = some (start + (joinedFrom sep first (xs ++ [x])).length) := by
  rw [endsFrom_append, joinedFrom_append]
  simp [endsFrom, joinedFrom, Nat.add_assoc]

namespace Joined

variable {flat : List α} {ends : List ℕ} {segments : List (List α)}

section

variable (h : Joined sep flat ends segments)

include h

theorem length_ends : ends.length = segments.length := by
  rw [h.ends_eq, length_endsFrom]

theorem take_ends (k : ℕ) : ends.take k = endsFrom sep true 0 (segments.take k) := by
  rcases Nat.le_total segments.length k with hk | hk
  · rw [take_of_length_le (h.length_ends ▸ hk), take_of_length_le hk, h.ends_eq]
  · have hsplit := @endsFrom_append _ sep true 0 (segments.take k) (segments.drop k)
    have hlen : (endsFrom sep true 0 (segments.take k)).length = k := by
      rw [length_endsFrom, length_take_of_le hk]
    rw [take_append_drop, ← h.ends_eq] at hsplit
    rw [hsplit, take_left' hlen]

/-- A recorded offset is the length of the segments before it. -/
theorem startOf_eq {k : ℕ} (hk : k ≤ segments.length) :
    startOf ends k = (joinedFrom sep true (segments.take k)).length := by
  unfold startOf
  by_cases hzero : k = 0
  · rw [hzero]
    rfl
  · obtain ⟨n, rfl⟩ : ∃ n, k = n + 1 := ⟨k - 1, by omega⟩
    have hn : n < segments.length := by omega
    have htake : segments.take (n + 1) = segments.take n ++ [segments[n]] := take_succ_eq_append_getElem hn
    have hlast := @getLast?_endsFrom _ sep true 0 (segments.take n) segments[n]
    have hlen : (ends.take (n + 1)).length = n + 1 := by
      rw [length_take_of_le (h.length_ends ▸ hk)]
    rw [← htake, ← h.take_ends, Nat.zero_add, getLast?_eq_getElem?, hlen] at hlast
    have hget : ends[n]? = some (joinedFrom sep true (segments.take (n + 1))).length := by
      rw [← hlast, Nat.add_sub_cancel, getElem?_take_of_lt (Nat.lt_succ_self n)]
    rw [Nat.add_sub_cancel, getD_eq_getElem?_getD, hget]
    rfl

theorem take_flat {k : ℕ} (hk : k ≤ segments.length) :
    flat.take (startOf ends k) = joinedFrom sep true (segments.take k) := by
  have hsplit := @joinedFrom_append _ sep true (segments.take k) (segments.drop k)
  rw [take_append_drop, ← h.flat_eq] at hsplit
  rw [hsplit, take_left' (h.startOf_eq hk).symm]

end

/-- Nothing is stored in nothing. -/
theorem nil : Joined sep [] [] [] := ⟨rfl, rfl⟩

/-- Cutting at a recorded offset and appending a tail stores the kept segments and the tail. -/
theorem replaceTail (h : Joined sep flat ends segments) {k : ℕ} (hk : k ≤ segments.length) (tail : List (List α)) :
    Joined sep (flat.take (startOf ends k) ++ joinedFrom sep (k == 0) tail)
      (ends.take k ++ endsFrom sep (k == 0) (startOf ends k) tail) (segments.take k ++ tail) := by
  have hempty : (segments.take k).isEmpty = (k == 0) := by
    rcases k with _ | k
    · rfl
    · rcases segments with _ | ⟨x, xs⟩
      · cases hk
      · rfl
  refine ⟨?_, ?_⟩
  · rw [joinedFrom_append, h.take_flat hk, Bool.true_and, hempty]
  · rw [endsFrom_append, h.take_ends, h.startOf_eq hk, Bool.true_and, hempty, Nat.zero_add]

end Joined

end Segments
