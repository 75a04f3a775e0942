import Mathlib.Data.Nat.Log
import Mathlib.Tactic.Linarith

/-!
# Bisection

Searches that halve a range: for the first position from which on a property holds, and for a position at which a comparison
is equal.
-/

namespace Bisect

/-- The first position from `low` to `high` at which the property holds, found in that many halvings. -/
def first (holds : ℤ → Bool) : ℕ → ℤ → ℤ → ℤ
  | 0, low, _ => low
  | fuel + 1, low, high => if low < high then
      if holds (low + (high - low) / 2) then first holds fuel low (low + (high - low) / 2)
      else first holds fuel (low + (high - low) / 2 + 1) high
    else low

variable {holds : ℤ → Bool} {low high : ℤ}

/-- The property holds upward in the range. -/
def Upward (holds : ℤ → Bool) (low high : ℤ) : Prop :=
  ∀ x y, low ≤ x → x ≤ y → y ≤ high → holds x = true → holds y = true

/-- What a search finds. -/
structure IsFirst (holds : ℤ → Bool) (low high found : ℤ) : Prop where
  lower : low ≤ found
  upper : found ≤ high
  sound : holds found = true
  least : ∀ x, low ≤ x → x < found → holds x = false

/-- With a halving for each position of the range the search finds the first one. -/
theorem isFirst (fuel : ℕ) (hfuel : high - low ≤ fuel) (hle : low ≤ high) (hup : Upward holds low high)
    (hhigh : holds high = true) : IsFirst holds low high (first holds fuel low high) := by
  induction fuel generalizing low high with
  | zero =>
    obtain rfl : low = high := by omega
    exact ⟨le_rfl, le_rfl, hhigh, fun x hx hlt => absurd hlt (not_lt.mpr hx)⟩
  | succ fuel ih =>
    rw [first]
    by_cases hlt : low < high
    · rw [if_pos hlt]
      by_cases hmiddle : holds (low + (high - low) / 2) = true
      · rw [if_pos hmiddle]
        have hfound := ih (by omega) (by omega)
          (fun x y hx hxy hy => hup x y hx hxy (by omega)) hmiddle
        exact ⟨hfound.lower, by have := hfound.upper; omega, hfound.sound, hfound.least⟩
      · rw [if_neg hmiddle]
        have hupper : Upward holds (low + (high - low) / 2 + 1) high := fun x y hx hxy hy => hup x y (by omega) hxy hy
        have hfound := ih (by omega) (by omega) hupper hhigh
        refine ⟨by have := hfound.lower; omega, hfound.upper, hfound.sound, fun x hx hbelow => ?_⟩
        -- below the middle the property does not hold, since it does not hold there
        by_cases hleft : x ≤ low + (high - low) / 2
        · by_contra hholds
          rw [Bool.not_eq_false] at hholds
          exact hmiddle (hup x _ hx hleft (by omega) hholds)
        · exact hfound.least x (by omega) hbelow
    · obtain rfl : low = high := by omega
      rw [if_neg hlt]
      exact ⟨le_rfl, le_rfl, hhigh, fun x hx hbelow => absurd hbelow (not_lt.mpr hx)⟩

/-! ## A search with three outcomes -/

/-- A position on no side of what is searched, found by halving the range; a position without a side ends the search. -/
def find (side : ℤ → Option Ordering) : ℕ → ℤ → ℤ → Option ℤ
  | 0, _, _ => none
  | fuel + 1, low, high => if low ≤ high then match side (low + (high - low) / 2) with
      | none => none
      | some .lt => find side fuel (low + (high - low) / 2 + 1) high
      | some .gt => find side fuel low (low + (high - low) / 2 - 1)
      | some .eq => some (low + (high - low) / 2)
    else none

variable {side : ℤ → Option Ordering} {n : ℤ}

/-- What was found is in the range, and on no side. -/
theorem find_ok {fuel : ℕ} (h : find side fuel low high = some n) : low ≤ n ∧ n ≤ high ∧ side n = some .eq := by
  induction fuel generalizing low high with
  | zero => cases h
  | succ fuel ih =>
    rw [find] at h
    by_cases hle : low ≤ high
    · rw [if_pos hle] at h
      split at h
      · cases h
      · obtain ⟨hlow, hhigh, hside⟩ := ih h
        exact ⟨by omega, hhigh, hside⟩
      · obtain ⟨hlow, hhigh, hside⟩ := ih h
        exact ⟨hlow, by omega, hside⟩
      · obtain rfl := Option.some.inj h
        exact ⟨by omega, by omega, ‹_›⟩
    · rw [if_neg hle] at h
      cases h

/-- The positions before, at and after what is searched, and those without a side. -/
def level : Option Ordering → ℕ
  | some .lt => 0
  | some .eq => 1
  | some .gt => 2
  | none => 3

theorem level_le (o : Option Ordering) : level o ≤ level none := by
  rcases o with _ | (_ | _ | _) <;> decide

/-- The levels rise in the range. -/
def Ordered (side : ℤ → Option Ordering) (low high : ℤ) : Prop :=
  ∀ x y, low ≤ x → x ≤ y → y ≤ high → level (side x) ≤ level (side y)

/-- Of the positions that are tried on the way to the upper bound, one is at what is searched or after it. -/
def Reached (side : ℤ → Option Ordering) (low high : ℤ) : Prop :=
  ∃ k : ℕ, 2 ^ k ≤ high - low + 1 ∧ ∃ o ≠ .lt, side (high - (high - low + 1) / 2 ^ (k + 1)) = some o

/-- The upper bound is tried in the end, and it is not before a position of the range that is at what is searched. -/
theorem reached_of_ordered (hordered : Ordered side low high) (hlow : low ≤ n) (hhigh : n ≤ high) (hn : side n = some .eq)
    (hside : side high ≠ none) : Reached side low high := by
  obtain ⟨o, ho⟩ := Option.ne_none_iff_exists'.mp hside
  obtain ⟨count, hcount⟩ := Int.eq_ofNat_of_zero_le (show 0 ≤ high - low + 1 by omega)
  refine ⟨Nat.log 2 count, ?_, o, ?_, ?_⟩
  · rw [hcount]
    exact_mod_cast Nat.pow_log_le_self 2 (by omega)
  · rintro rfl
    have hlevel := hordered n high hlow hhigh le_rfl
    rw [hn, ho] at hlevel
    exact absurd hlevel (by decide)
  · rw [hcount, Int.ediv_eq_zero_of_lt (Int.natCast_nonneg count), sub_zero, ho]
    exact_mod_cast Nat.lt_pow_succ_log_self Nat.one_lt_two count

/-- After a position before what is searched, the search goes on above it. -/
theorem reached_above (hside : side (low + (high - low) / 2) = some .lt) :
    Reached side (low + (high - low) / 2 + 1) high ↔ Reached side low high := by
  have hcount : high - (low + (high - low) / 2 + 1) + 1 = (high - low + 1) / 2 := by omega
  have hprobe : ∀ k : ℕ, (high - low + 1) / 2 / 2 ^ (k + 1) = (high - low + 1) / 2 ^ (k + 1 + 1) := fun k => by
    rw [Int.ediv_ediv_of_nonneg (by omega), pow_succ' 2 (k + 1)]
  unfold Reached
  rw [hcount]
  constructor
  · rintro ⟨k, hk, o, ho, hreached⟩
    refine ⟨k + 1, ?_, o, ho, by rw [← hprobe, hreached]⟩
    rw [pow_succ]
    omega
  · rintro ⟨k, hk, o, ho, hreached⟩
    cases k with
    | zero =>
      rw [zero_add, pow_one, show high - (high - low + 1) / 2 = low + (high - low) / 2 by omega, hside] at hreached
      exact absurd (Option.some.inj hreached).symm ho
    | succ k =>
      refine ⟨k, ?_, o, ho, by rw [hprobe, hreached]⟩
      rw [pow_succ] at hk
      omega

/-- With a halving for each position, a position on no side is found if and only if one that is tried on the way to the upper
bound is not before it. -/
theorem find_isSome_iff (fuel : ℕ) (hfuel : high - low + 1 ≤ fuel) (hordered : Ordered side low high) (hlow : low ≤ n)
    (hhigh : n ≤ high) (hn : side n = some .eq) : (find side fuel low high).isSome ↔ Reached side low high := by
  induction fuel generalizing low high with
  | zero => omega
  | succ fuel ih =>
    have hle : low ≤ high := by omega
    have hmiddle : low ≤ low + (high - low) / 2 ∧ low + (high - low) / 2 ≤ high := by omega
    rw [find, if_pos hle]
    cases hside : side (low + (high - low) / 2) with
    | none =>
      refine iff_of_false Bool.false_ne_true ?_
      -- every position that is tried later on the way up is above the middle
      rintro ⟨k, hk, o, -, hreached⟩
      have hhalf : (high - low + 1) / 2 ^ (k + 1) ≤ (high - low + 1) / 2 := by
        rw [pow_succ', ← Int.ediv_ediv_of_nonneg (by omega)]
        exact Int.ediv_le_self _ (by omega)
      have hpos : 0 ≤ (high - low + 1) / 2 ^ (k + 1) := Int.ediv_nonneg (by omega) (by positivity)
      have hlevel := hordered (low + (high - low) / 2) (high - (high - low + 1) / 2 ^ (k + 1)) hmiddle.1 (by omega) (by omega)
      rw [hside, hreached] at hlevel
      cases o <;> exact absurd hlevel (by decide)
    | some o =>
      cases o with
      | lt =>
        have hafter : low + (high - low) / 2 + 1 ≤ n := by
          by_contra hbefore
          have hlevel := hordered n (low + (high - low) / 2) hlow (by omega) hmiddle.2
          rw [hside, hn] at hlevel
          exact absurd hlevel (by decide)
        rw [← reached_above hside]
        exact ih (by omega) (fun x y hx hxy hy => hordered x y (by omega) hxy hy) hafter hhigh
      | eq => exact ⟨fun _ => ⟨0, by omega, .eq, by decide, by
          rw [zero_add, pow_one, show high - (high - low + 1) / 2 = low + (high - low) / 2 by omega, hside]⟩, fun _ => rfl⟩
      | gt =>
        have hbefore : n ≤ low + (high - low) / 2 - 1 := by
          by_contra hafter
          have hlevel := hordered (low + (high - low) / 2) n hmiddle.1 (by omega) hhigh
          rw [hside, hn] at hlevel
          exact absurd hlevel (by decide)
        refine iff_of_true ?_ ?_
        · have hleft : Ordered side low (low + (high - low) / 2 - 1) := fun x y hx hxy hy => hordered x y hx hxy (by omega)
          refine (ih (by omega) hleft hlow hbefore).mpr (reached_of_ordered hleft hlow hbefore hn fun hnone => ?_)
          have hlevel := hordered (low + (high - low) / 2 - 1) (low + (high - low) / 2) (by omega) (by omega) hmiddle.2
          rw [hside, hnone] at hlevel
          exact absurd hlevel (by decide)
        · exact ⟨0, by omega, .gt, by decide, by
            rw [zero_add, pow_one, show high - (high - low + 1) / 2 = low + (high - low) / 2 by omega, hside]⟩

end Bisect
