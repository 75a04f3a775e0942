import Mathlib.Data.Nat.Basic

/-!
# Two grids

A position on a grid is carried to another grid by `x ↦ x * a / d` and back by `x ↦ x * d / a`. A
boundary is rounded to the nearest position, an offset behind a boundary is rounded down; an offset
that is inside the carried range comes back inside the range.
-/

namespace Grid

/-- The position that is at most `x * a / d`. -/
def floor (a d x : ℕ) : ℕ := x * a / d

/-- The position nearest to `x * a / d`; a tie goes up, on an odd `d` a little less than a tie. -/
def nearest (a d x : ℕ) : ℕ := (x * a + d / 2) / d

/-- The position that is at least `x * a / d`. -/
def ceil (a d x : ℕ) : ℕ := (x * a + (d - 1)) / d

variable {a d x y o k : ℕ}

theorem floor_mono (h : x ≤ y) : floor a d x ≤ floor a d y := Nat.div_le_div_right (Nat.mul_le_mul_right a h)

theorem nearest_mono (h : x ≤ y) : nearest a d x ≤ nearest a d y := by
  apply Nat.div_le_div_right
  have := Nat.mul_le_mul_right a h
  omega

theorem ceil_mul_ge (hd : 0 < d) : x * a ≤ ceil a d x * d := by
  have hlt : x * a + (d - 1) < d * (ceil a d x + 1) := Nat.lt_mul_div_succ _ hd
  rw [Nat.mul_add, Nat.mul_comm d] at hlt
  omega

theorem ceil_mono (h : x ≤ y) : ceil a d x ≤ ceil a d y := by
  apply Nat.div_le_div_right
  have := Nat.mul_le_mul_right a h
  omega

/-- A position is rounded down to less than a later one is rounded up to. -/
theorem floor_lt_ceil (ha : 0 < a) (hd : 0 < d) (h : x < y) : floor a d x < ceil a d y := by
  have hfloor : floor a d x * d ≤ x * a := Nat.div_mul_le_self _ _
  have hceil := ceil_mul_ge (a := a) (x := y) hd
  have hlt : x * a < y * a := Nat.mul_lt_mul_of_pos_right h ha
  exact Nat.lt_of_mul_lt_mul_right (Nat.lt_of_le_of_lt hfloor (Nat.lt_of_lt_of_le hlt hceil))

/-- The two roundings of a position are neighbours. -/
theorem ceil_le_floor_add_one (hd : 0 < d) : ceil a d x ≤ floor a d x + 1 := by
  have hfloor : x * a < d * (floor a d x + 1) := Nat.lt_mul_div_succ _ hd
  have hceil : ceil a d x * d ≤ x * a + (d - 1) := Nat.div_mul_le_self _ _
  rw [Nat.mul_comm d] at hfloor
  have hlt : ceil a d x * d < (floor a d x + 1 + 1) * d := by
    rw [Nat.add_mul (floor a d x + 1)]
    omega
  have := Nat.lt_of_mul_lt_mul_right hlt
  omega

/-- A grid is carried to one of the same step without rounding. -/
theorem nearest_same (hd : 0 < d) : nearest d d x = x := by
  rw [nearest, Nat.mul_comm, Nat.mul_add_div hd, Nat.div_eq_of_lt (Nat.div_lt_self hd (by decide)), Nat.add_zero]

theorem floor_same (hd : 0 < d) : floor d d x = x := Nat.mul_div_cancel x hd

theorem floor_le_nearest : floor a d x ≤ nearest a d x := Nat.div_le_div_right (Nat.le_add_right _ _)

/-- The nearest position is the one below or the one above. -/
theorem nearest_le_floor_add_one (hd : 0 < d) : nearest a d x ≤ floor a d x + 1 := by
  have hnear : nearest a d x * d ≤ x * a + d / 2 := Nat.div_mul_le_self _ _
  have hfloor : x * a < d * (floor a d x + 1) := Nat.lt_mul_div_succ _ hd
  rw [Nat.mul_comm d] at hfloor
  have hlt : nearest a d x * d < (floor a d x + 1 + 1) * d := by
    rw [Nat.add_mul]
    omega
  have := Nat.lt_of_mul_lt_mul_right hlt
  omega

/-! ## Ranges between two boundaries -/

/-- Where a boundary is between two positions of the other grid. -/
def phase (a d x : ℕ) : ℕ := (x * a + d / 2) % d

/-- A range of the length from the boundary is carried to one that is a step longer. -/
def Gains (a d x l : ℕ) : Prop := d ≤ phase a d x + l * a % d

instance : Decidable (Gains a d x l) := inferInstanceAs (Decidable (_ ≤ _))

/-- A range of a length is carried to one of two lengths, which depends on the phase of its boundary. -/
theorem nearest_add (hd : 0 < d) (x l : ℕ) :
    nearest a d (x + l) = nearest a d x + l * a / d + if Gains a d x l then 1 else 0 := by
  have hsum : (x + l) * a + d / 2 = (x * a + d / 2) + l * a := by
    rw [Nat.add_mul]
    omega
  rw [nearest, hsum, Nat.add_div hd]
  rfl

/-- Between two boundaries: the carried range is less than one step longer than the range. -/
theorem nearest_sub_lt (hd : 0 < d) : nearest a d y * d < nearest a d x * d + (y - x) * a + d := by
  have hupper : nearest a d y * d ≤ y * a + d / 2 := Nat.div_mul_le_self _ _
  have hlower : x * a + d / 2 < d * (nearest a d x + 1) := Nat.lt_mul_div_succ _ hd
  have hsub : y * a ≤ (y - x) * a + x * a := by
    rw [← Nat.add_mul]
    exact Nat.mul_le_mul_right a (by omega)
  rw [Nat.mul_add, Nat.mul_comm d] at hlower
  omega

/-- Between two boundaries: the range is less than one step longer than the carried range. -/
theorem sub_nearest_lt (hd : 0 < d) (h : x ≤ y) : (y - x) * a + nearest a d x * d < nearest a d y * d + d := by
  have hupper : nearest a d x * d ≤ x * a + d / 2 := Nat.div_mul_le_self _ _
  have hlower : y * a + d / 2 < d * (nearest a d y + 1) := Nat.lt_mul_div_succ _ hd
  have hsub : (y - x) * a + x * a = y * a := by
    rw [← Nat.add_mul, Nat.sub_add_cancel h]
  rw [Nat.mul_add, Nat.mul_comm d] at hlower
  omega

/-- An offset inside the carried range comes back inside the range. -/
theorem floor_lt_of_lt_nearest (hd : 0 < d) (ho : o < nearest a d y - nearest a d x) : floor d a o < y - x := by
  have hrange := nearest_sub_lt (a := a) (x := x) (y := y) hd
  have hoffset : (nearest a d x + (o + 1)) * d ≤ nearest a d y * d := Nat.mul_le_mul_right d (by omega)
  rw [Nat.add_mul, Nat.add_mul] at hoffset
  exact Nat.div_lt_of_lt_mul (by rw [Nat.mul_comm a]; omega)

/-! ## Ranges that are carried to one length -/

variable {s l e : ℕ}

theorem nearest_eq_iff (hd : 0 < d) : nearest a d x = y ↔ y * d ≤ x * a + d / 2 ∧ x * a + d / 2 < y * d + d := by
  rw [nearest, Nat.div_eq_iff hd, ← Nat.le_sub_one_iff_lt (by omega)]

/-- The range is carried to one of the length. -/
def Exact (a d s l e : ℕ) : Prop := nearest a d e = nearest a d s + l

/-- The ends of the ranges from a boundary that are carried to one length are between two bounds, and so is the position
to which the length comes back. -/
theorem exact_iff (hd : 0 < d) : Exact a d s l e ↔
    nearest a d s * d + l * d ≤ e * a + d / 2 ∧ e * a + d / 2 < nearest a d s * d + l * d + d := by
  rw [Exact, nearest_eq_iff hd, Nat.add_mul]

/-- If some range from the boundary is carried to one of the length, then one is whose end is beside the position to which
the length comes back: it is at most a step from the position that is nearest to it. -/
theorem exact_near (ha : 0 < a) (hd : 0 < d) (h : Exact a d s l e) :
    ∃ near, Exact a d s l near ∧ (near ≤ e ∨ near ≤ s + floor d a l) ∧
      s + nearest d a l ≤ near + 1 ∧ near ≤ s + nearest d a l + 1 := by
  have hlower : floor d a l * a ≤ l * d := Nat.div_mul_le_self _ _
  have hupper : l * d < a * (floor d a l + 1) := Nat.lt_mul_div_succ _ ha
  rw [Nat.mul_add, Nat.mul_comm a] at hupper
  obtain ⟨hstart, hstart'⟩ := (nearest_eq_iff (a := a) (x := s) hd).mp rfl
  obtain ⟨hfirst, hlast⟩ := (exact_iff hd).mp h
  have hbelow : floor d a l ≤ nearest d a l := floor_le_nearest
  have habove : nearest d a l ≤ floor d a l + 1 := nearest_le_floor_add_one ha
  by_cases hside : e ≤ s + floor d a l
  · have hscaled := Nat.mul_le_mul_right a hside
    refine ⟨s + floor d a l, (exact_iff hd).mpr ⟨?_, ?_⟩, .inr le_rfl, by omega, by omega⟩
    · omega
    · rw [Nat.add_mul]
      omega
  · have hscaled : (s + floor d a l + 1) * a ≤ e * a := Nat.mul_le_mul_right a (by omega)
    refine ⟨s + floor d a l + 1, (exact_iff hd).mpr ⟨?_, ?_⟩, .inl (by omega), by omega, by omega⟩
    · rw [Nat.add_mul, Nat.add_mul]
      omega
    · omega

/-! ## Periods -/

variable {m : ℕ}

/-- A number of steps after which rounding repeats. -/
def Repeats (a d m : ℕ) : Prop := d ∣ m * a

/-- The least number of steps after which rounding repeats. -/
def period (a d : ℕ) : ℕ := d / Nat.gcd d a

theorem period_pos (hd : 0 < d) : 0 < period a d := Nat.div_pos (Nat.gcd_le_left a hd) (Nat.gcd_pos_of_pos_left a hd)

theorem repeats_of_dvd (h : period a d ∣ m) : Repeats a d m := by
  obtain ⟨n, rfl⟩ := h
  refine ⟨n * (a / Nat.gcd d a), ?_⟩
  calc
    period a d * n * a = n * (d / Nat.gcd d a * a) := by rw [period, Nat.mul_comm _ n, Nat.mul_assoc]
    _ = n * (d * (a / Nat.gcd d a)) := by
      rw [Nat.div_mul_right_comm (Nat.gcd_dvd_left d a), Nat.mul_div_assoc d (Nat.gcd_dvd_right d a)]
    _ = d * (n * (a / Nat.gcd d a)) := Nat.mul_left_comm _ _ _

namespace Repeats

variable (h : Repeats a d m) (hd : 0 < d)

include h hd

theorem nearest_add : nearest a d (x + m) = nearest a d x + m * a / d := by
  obtain ⟨n, hn⟩ := h
  rw [nearest, nearest, Nat.add_mul, Nat.add_right_comm, hn, Nat.add_mul_div_left _ _ hd, Nat.mul_div_cancel_left _ hd]

theorem floor_add : floor a d (x + m) = floor a d x + m * a / d := by
  obtain ⟨n, hn⟩ := h
  rw [floor, floor, Nat.add_mul, hn, Nat.add_mul_div_left _ _ hd, Nat.mul_div_cancel_left _ hd]

/-- A range is carried to the same length a period later. -/
theorem exact_add : Exact a d (s + m) l (e + m) ↔ Exact a d s l e := by
  rw [Exact, Exact, h.nearest_add hd, h.nearest_add hd]
  omega

/-- As many whole steps are between two positions a period later. -/
theorem floor_sub_floor_add : floor a d (e + m) - floor a d (s + m) = floor a d e - floor a d s := by
  rw [h.floor_add hd, h.floor_add hd]
  omega

end Repeats

/-! ## Splitting a range -/

/-- The range up to a boundary whose carried range has length `o`. -/
structure SplitsAt (a d w o : ℕ) : Prop where
  lower : o * d < w * a + d
  upper : w * a < o * d + d

/-- A boundary `y` splits a range that starts with `x` at the carried offset `o`. -/
theorem splitsAt (hd : 0 < d) (h : x ≤ y) (ho : nearest a d y = nearest a d x + o) : SplitsAt a d (y - x) o := by
  have hlower := nearest_sub_lt (a := a) (x := x) (y := y) hd
  have hupper := sub_nearest_lt (a := a) hd h
  rw [ho, Nat.add_mul] at hlower hupper
  exact ⟨by omega, by omega⟩

variable {w : ℕ}

/-- A restart at the boundary gains at most one rounded step over the range as a whole. -/
theorem SplitsAt.restart_le (h : SplitsAt a d w o) (ha : 0 < a) : w + floor d a k ≤ floor d a (o + k) + ceil d a 1 := by
  have hrest : floor d a k * a ≤ k * d := Nat.div_mul_le_self _ _
  have hwhole : (o + k) * d < a * (floor d a (o + k) + 1) := Nat.lt_mul_div_succ _ ha
  have hstep : 1 * d ≤ ceil d a 1 * a := ceil_mul_ge ha
  have hupper := h.upper
  have hlt : (w + floor d a k) * a < (floor d a (o + k) + ceil d a 1 + 1) * a := by
    rw [Nat.add_mul, Nat.add_mul, Nat.add_mul]
    rw [Nat.add_mul, Nat.mul_add, Nat.mul_comm a] at hwhole
    omega
  have := Nat.lt_of_mul_lt_mul_right hlt
  omega

/-- A restart at the boundary loses at most one rounded step on the range as a whole. -/
theorem SplitsAt.le_restart (h : SplitsAt a d w o) (ha : 0 < a) : floor d a (o + k) ≤ w + floor d a k + ceil d a 1 := by
  have hwhole : floor d a (o + k) * a ≤ (o + k) * d := Nat.div_mul_le_self _ _
  have hrest : k * d < a * (floor d a k + 1) := Nat.lt_mul_div_succ _ ha
  have hstep : 1 * d ≤ ceil d a 1 * a := ceil_mul_ge ha
  have hlower := h.lower
  have hlt : floor d a (o + k) * a < (w + floor d a k + ceil d a 1 + 1) * a := by
    rw [Nat.add_mul] at hwhole
    rw [Nat.add_mul, Nat.add_mul, Nat.add_mul]
    rw [Nat.mul_add, Nat.mul_comm a] at hrest
    omega
  have := Nat.lt_of_mul_lt_mul_right hlt
  omega

/-- On grids of one step a restart is exact. -/
theorem SplitsAt.same (h : SplitsAt d d w o) : w = o := by
  have hupper : w * d < (o + 1) * d := by
    rw [Nat.add_mul]
    have := h.upper
    omega
  have hlower : o * d < (w + 1) * d := by
    rw [Nat.add_mul]
    have := h.lower
    omega
  have := Nat.lt_of_mul_lt_mul_right hupper
  have := Nat.lt_of_mul_lt_mul_right hlower
  omega

end Grid
