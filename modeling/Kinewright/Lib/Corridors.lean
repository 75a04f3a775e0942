import Mathlib.Algebra.Order.Group.Abs
import Mathlib.Data.List.Chain

/-!
# Paths within intervals

A path has a value in each of a list of intervals, and gets from one value to the next by no more than a step. What can be
reached in an interval is an interval again, so a path exists exactly if none of these is empty. Backwards from any end
that can be reached, a path to it is found by staying in what can be reached.
-/

namespace Corridor

variable {α : Type*}

/-- The value is in the interval. -/
def Within [LE α] (interval : α × α) (value : α) : Prop := interval.1 ≤ value ∧ value ≤ interval.2

section

variable [LinearOrder α] {interval : α × α} {wanted : α}

/-- The value of the interval that is nearest to the wanted one. -/
def nearest (interval : α × α) (wanted : α) : α := max interval.1 (min interval.2 wanted)

theorem nearest_eq (h : Within interval wanted) : nearest interval wanted = wanted := by
  rw [nearest, min_eq_right h.2, max_eq_right h.1]

theorem within_nearest (hne : interval.1 ≤ interval.2) (wanted : α) : Within interval (nearest interval wanted) :=
  ⟨le_max_left _ _, max_le hne (min_le_left _ _)⟩

end

variable [AddCommGroup α] [LinearOrder α]

/-- The value is reached by a step from the interval, if there is one to start from. -/
def Starts (step : α) (start : Option (α × α)) (value : α) : Prop :=
  ∀ interval ∈ start, ∃ previous, Within interval previous ∧ |value - previous| ≤ step

/-- A path through the intervals. -/
structure Follows (step : α) (start : Option (α × α)) (intervals : List (α × α)) (values : List α) : Prop where
  within : List.Forall₂ Within intervals values
  steps : values.IsChain fun value next => |next - value| ≤ step
  start : ∀ value ∈ values.head?, Starts step start value

/-- What can be reached of an interval. -/
def reach (step : α) (start : Option (α × α)) (interval : α × α) : α × α :=
  match start with
  | none => interval
  | some previous => (max interval.1 (previous.1 - step), min interval.2 (previous.2 + step))

variable {step : α} {start : Option (α × α)} {interval previous : α × α} {intervals : List (α × α)} {value next : α}
  {values : List α}

theorem within_reach_some : Within (reach step (some previous) interval) value ↔
    Within interval value ∧ previous.1 - step ≤ value ∧ value ≤ previous.2 + step := by
  rw [Within, reach, max_le_iff, le_min_iff]
  constructor
  · rintro ⟨⟨hlow, hfrom⟩, hhigh, hto⟩
    exact ⟨⟨hlow, hhigh⟩, hfrom, hto⟩
  · rintro ⟨⟨hlow, hhigh⟩, hfrom, hto⟩
    exact ⟨⟨hlow, hfrom⟩, hhigh, hto⟩

/-! ## Paths from an interval on -/

/-- There is a path. -/
def Feasible (step : α) (start : Option (α × α)) (intervals : List (α × α)) : Prop :=
  ∃ values, Follows step start intervals values

theorem Follows.take (h : Follows step start intervals values) (count : ℕ) :
    Follows step start (intervals.take count) (values.take count) where
  within := List.forall₂_take count h.within
  steps := h.steps.take count
  start value hvalue := by
    cases count with
    | zero => cases hvalue
    | succ count =>
      rw [List.head?_take] at hvalue
      exact h.start value hvalue

theorem Feasible.take (h : Feasible step start intervals) (count : ℕ) : Feasible step start (intervals.take count) :=
  ⟨_, h.choose_spec.take count⟩

theorem feasible_nil : Feasible step start [] := ⟨[], .nil, .nil, nofun⟩

variable [IsOrderedAddMonoid α]

/-- What is no further than a step from an interval is reached from it. -/
theorem exists_within (hne : previous.1 ≤ previous.2) (hstep : 0 ≤ step) (hfrom : previous.1 - step ≤ value)
    (hto : value ≤ previous.2 + step) : ∃ near, Within previous near ∧ |value - near| ≤ step := by
  rcases lt_or_ge value previous.1 with hbelow | hlow
  · refine ⟨previous.1, ⟨le_rfl, hne⟩, abs_sub_le_iff.mpr ⟨?_, sub_le_comm.mp hfrom⟩⟩
    exact (sub_nonpos.mpr hbelow.le).trans hstep
  · rcases lt_or_ge previous.2 value with habove | hhigh
    · refine ⟨previous.2, ⟨hne, le_rfl⟩, abs_sub_le_iff.mpr ⟨sub_le_iff_le_add'.mpr hto, ?_⟩⟩
      exact (sub_nonpos.mpr habove.le).trans hstep
    · refine ⟨value, ⟨hlow, hhigh⟩, ?_⟩
      rw [sub_self, abs_zero]
      exact hstep

section

variable (hne : ∀ previous ∈ start, previous.1 ≤ previous.2) (hstep : 0 ≤ step)

include hne hstep

/-- What is reached of an interval are the values that are reached by a step. -/
theorem within_reach : Within (reach step start interval) value ↔ Within interval value ∧ Starts step start value := by
  cases start with
  | none => exact ⟨fun h => ⟨h, nofun⟩, fun h => h.1⟩
  | some previous =>
    rw [within_reach_some]
    refine and_congr_right fun _ => ?_
    constructor
    · rintro ⟨hfrom, hto⟩ interval hinterval
      obtain rfl := Option.some.inj hinterval
      exact exists_within (hne previous rfl) hstep hfrom hto
    · intro h
      obtain ⟨near, ⟨hlow, hhigh⟩, hnear⟩ := h previous rfl
      obtain ⟨hup, hdown⟩ := abs_sub_le_iff.mp hnear
      exact ⟨sub_le_iff_le_add.mpr (hlow.trans (sub_le_iff_le_add'.mp hdown)),
        (sub_le_iff_le_add'.mp hup).trans (add_le_add_left hhigh step)⟩

/-- A path goes on from what is reached. -/
theorem Follows.uncons
    (h : Follows step start (interval :: intervals) (value :: values)) : Within (reach step start interval) value ∧
      (∀ next ∈ values.head?, |next - value| ≤ step) ∧ Follows step (some (reach step start interval)) intervals values := by
  obtain ⟨hvalue, hrest⟩ := List.forall₂_cons.mp h.within
  obtain ⟨hnext, hsteps⟩ := List.isChain_cons.mp h.steps
  have hreached := (within_reach hne hstep).mpr ⟨hvalue, h.start value rfl⟩
  refine ⟨hreached, hnext, hrest, hsteps, fun next hmem window hwindow => ?_⟩
  obtain rfl := Option.some.inj hwindow
  exact ⟨value, hreached, hnext next hmem⟩

theorem Follows.cons
    (hreached : Within (reach step start interval) value) (hnext : ∀ next ∈ values.head?, |next - value| ≤ step)
    (hwithin : List.Forall₂ Within intervals values) (hsteps : values.IsChain fun value next => |next - value| ≤ step) :
    Follows step start (interval :: intervals) (value :: values) := by
  obtain ⟨hvalue, hstart⟩ := (within_reach hne hstep).mp hreached
  exact ⟨.cons hvalue hwithin, List.isChain_cons.mpr ⟨hnext, hsteps⟩, fun other hother => Option.some.inj hother ▸ hstart⟩

/-- A path is a value that is reached, and a path from there on. -/
theorem feasible_cons :
    Feasible step start (interval :: intervals) ↔ (reach step start interval).1 ≤ (reach step start interval).2 ∧
      Feasible step (some (reach step start interval)) intervals := by
  constructor
  · rintro ⟨values, h⟩
    cases values with
    | nil => cases h.within
    | cons value rest =>
      obtain ⟨hreached, -, hrest⟩ := h.uncons hne hstep
      exact ⟨hreached.1.trans hreached.2, rest, hrest⟩
  · rintro ⟨hreach, rest, hrest⟩
    -- a value from which the path may go on
    obtain ⟨value, hreached, hnext⟩ : ∃ value, Within (reach step start interval) value ∧
        ∀ next ∈ rest.head?, |next - value| ≤ step := by
      cases hhead : rest.head? with
      | none => exact ⟨_, ⟨le_rfl, hreach⟩, nofun⟩
      | some next =>
        obtain ⟨value, hreached, hnext⟩ := hrest.start next hhead _ rfl
        exact ⟨value, hreached, fun other hother => Option.some.inj hother ▸ hnext⟩
    exact ⟨value :: rest, .cons hne hstep hreached hnext hrest.within hrest.steps⟩

end

/-! ## The way back -/

/-- Where a step of the way back has to end. -/
def behind (step : α) (window : α × α) (values : List α) : α × α :=
  reach step (values.head?.map fun next => (next, next)) window

/-- A value that is reached from an interval is a step from a value of it. -/
theorem reach_back (hne : previous.1 ≤ previous.2) (hstep : 0 ≤ step) (h : Within (reach step (some previous) interval) next) :
    (reach step (some (next, next)) previous).1 ≤ (reach step (some (next, next)) previous).2 := by
  obtain ⟨-, hfrom, hto⟩ := within_reach_some.mp h
  refine max_le (le_min hne (sub_le_iff_le_add.mp hfrom)) (le_min (sub_le_iff_le_add.mpr hto) ?_)
  exact (sub_le_self next hstep).trans (le_add_of_nonneg_right hstep)

/-- The way back is a path through what can be reached, and the wanted one if that is a path. -/
structure Approached (step : α) (start : Option (α × α)) (intervals : List (α × α)) (wanted values : List α) : Prop where
  follows : Follows step start intervals values
  reached : ∀ interval ∈ intervals.head?, ∀ value ∈ values.head?, Within (reach step start interval) value
  same : Follows step start intervals wanted → values = wanted

theorem within_behind {window : α × α} : Within (behind step window values) value ↔
    Within window value ∧ ∀ next ∈ values.head?, |next - value| ≤ step := by
  rw [behind]
  cases values.head? with
  | none => exact ⟨fun h => ⟨h, nofun⟩, fun h => h.1⟩
  | some next =>
    rw [Option.map_some, within_reach_some]
    refine and_congr_right fun _ => ?_
    constructor
    · rintro ⟨hfrom, hto⟩ other hother
      obtain rfl := Option.some.inj hother
      exact abs_sub_le_iff.mpr ⟨sub_le_comm.mp hfrom, sub_le_iff_le_add'.mpr hto⟩
    · intro h
      obtain ⟨hfrom, hto⟩ := abs_sub_le_iff.mp (h next rfl)
      exact ⟨sub_le_comm.mp hfrom, sub_le_iff_le_add'.mp hto⟩

/-- The way back never gets stuck. -/
theorem Approached.behind_le (hstep : 0 ≤ step) (hreach : (reach step start interval).1 ≤ (reach step start interval).2)
    {rest : List α} (h : Approached step (some (reach step start interval)) intervals rest values) :
    (behind step (reach step start interval) values).1 ≤ (behind step (reach step start interval) values).2 := by
  cases hwithin : h.follows.within with
  | nil => exact hreach
  | cons hvalue hrest => exact reach_back hreach hstep (h.reached _ rfl _ rfl)

/-- A step of the way back. -/
theorem Approached.cons {wanted : α} {rest : List α} (hne : ∀ previous ∈ start, previous.1 ≤ previous.2) (hstep : 0 ≤ step)
    (hreach : (reach step start interval).1 ≤ (reach step start interval).2)
    (h : Approached step (some (reach step start interval)) intervals rest values) :
    Approached step start (interval :: intervals) (wanted :: rest)
      (nearest (behind step (reach step start interval) values) wanted :: values) := by
  obtain ⟨hreached, hnext⟩ := within_behind.mp (within_nearest (h.behind_le hstep hreach) wanted)
  refine ⟨.cons hne hstep hreached hnext h.follows.within h.follows.steps, ?_, fun hwanted => ?_⟩
  · intro window hwindow value hvalue
    obtain rfl := Option.some.inj hwindow
    exact Option.some.inj hvalue ▸ hreached
  · obtain ⟨hreached, hnext, hrest⟩ := hwanted.uncons hne hstep
    obtain rfl := h.same hrest
    rw [nearest_eq (within_behind.mpr ⟨hreached, hnext⟩)]

end Corridor
