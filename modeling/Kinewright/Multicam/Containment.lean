import Kinewright.Lib.Corridors
import Kinewright.Model.ClipData
import Kinewright.Multicam.Reframe

/-!
# Focus within what has to stay in the picture

A focus is contained if it is in the interval of each frame and within the bounds, and moves in steps. The two passes find
one exactly if there is one, and leave the smoothed focus alone where that is contained already.
-/

namespace Kinewright.Multicam

open Fallible Model Corridor List Int64
open Option hiding map_id map_map min_eq_left

/-! ## Saturating steps -/

theorem toInt_ofIntClamp (value : ℤ) : (Int64.ofIntClamp value).toInt = max (-2 ^ 63) (min (2 ^ 63 - 1) value) := by
  have hlow : Int64.minValue.toInt = -2 ^ 63 := rfl
  have hhigh : Int64.maxValue.toInt = 2 ^ 63 - 1 := rfl
  rw [Int64.ofIntClamp]
  split
  · split
    · rw [toInt_ofIntLE]
      omega
    · omega
  · omega

section

variable {value next low high step : Int64}

/-- A step that saturates is below all that it is compared with. -/
theorem toInt_max_saturatingSub (hstep : 0 ≤ step.toInt) :
    (max value (saturatingSub next step)).toInt = max value.toInt (next.toInt - step.toInt) := by
  have hvalue := value.le_toInt
  have hnext := next.toInt_lt
  rw [toInt_max, saturatingSub, toInt_ofIntClamp]
  omega

theorem toInt_min_saturatingAdd (hstep : 0 ≤ step.toInt) :
    (min value (saturatingAdd next step)).toInt = min value.toInt (next.toInt + step.toInt) := by
  have hvalue := value.toInt_lt
  have hnext := next.le_toInt
  rw [toInt_min, saturatingAdd, toInt_ofIntClamp]
  omega

theorem toInt_neg_of_nonneg (h : 0 ≤ step.toInt) : (-step).toInt = -step.toInt := by
  have hstep := step.toInt_lt
  rw [toInt_neg, Int.bmod_eq_of_le]
  · omega
  · omega

/-- A value is clamped to the nearest one of an interval. -/
theorem clamp_eq (value : Int64) (h : low.toInt ≤ high.toInt) :
    ∃ near, clamp value low high = some near ∧ near.toInt = nearest (low.toInt, high.toInt) value.toInt := by
  refine ⟨_, if_pos (le_iff_toInt_le.mpr h), ?_⟩
  rw [nearest]
  by_cases hlow : value < low
  · rw [if_pos hlow]
    rw [lt_iff_toInt_lt] at hlow
    omega
  · rw [if_neg hlow]
    rw [lt_iff_toInt_lt] at hlow
    by_cases hhigh : high < value
    · rw [if_pos hhigh]
      rw [lt_iff_toInt_lt] at hhigh
      omega
    · rw [if_neg hhigh]
      rw [lt_iff_toInt_lt] at hhigh
      omega

end

/-! ## Smoothing never panics -/

section

variable {minimum maximum deadZone maximumStep focus : Int64}

section

variable (hminimum : 0 ≤ minimum.toInt) (hbounds : minimum.toInt ≤ maximum.toInt) (hdeadZone : 0 ≤ deadZone.toInt) (hstep : 0 ≤ maximumStep.toInt)

include hminimum hbounds hdeadZone hstep

/-- The controller stays within the bounds, where the distances it computes are exact. -/
theorem reactiveFocus_within (hfocus : Within (minimum.toInt, maximum.toInt) focus.toInt)
    (subject : Int64) : ∃ focus', reactiveFocus minimum maximum deadZone maximumStep focus subject = some focus' ∧
      Within (minimum.toInt, maximum.toInt) focus'.toInt := by
  have hmaximum := maximum.toInt_lt
  obtain ⟨hlow, hhigh⟩ := hfocus
  obtain ⟨near, hnear, hnearest⟩ := clamp_eq subject hbounds
  have hwithin : Within (minimum.toInt, maximum.toInt) (nearest (minimum.toInt, maximum.toInt) subject.toInt) :=
    within_nearest hbounds _
  obtain ⟨hnearlow, hnearhigh⟩ := hwithin
  dsimp only at hlow hhigh hnearlow hnearhigh
  -- what the controller heads for is not negative either
  obtain ⟨desired, hdesired, hpositive⟩ : ∃ desired, (if near < saturatingSub focus deadZone then saturatingAdd near deadZone
      else if saturatingAdd focus deadZone < near then saturatingSub near deadZone else focus) = desired ∧
      0 ≤ desired.toInt := by
    refine ⟨_, rfl, ?_⟩
    by_cases hbelow : near < saturatingSub focus deadZone
    · rw [if_pos hbelow, saturatingAdd, toInt_ofIntClamp]
      omega
    · rw [if_neg hbelow]
      by_cases habove : saturatingAdd focus deadZone < near
      · rw [if_pos habove, saturatingSub, toInt_ofIntClamp]
        rw [lt_iff_toInt_lt, saturatingAdd, toInt_ofIntClamp] at habove
        omega
      · rw [if_neg habove]
        omega
  have hupper := desired.toInt_lt
  obtain ⟨distance, hdistance, -⟩ := exists_tryFrom_of_lt (n := desired.toInt - focus.toInt) (by omega) (by omega)
  have hsteps : (-maximumStep).toInt ≤ maximumStep.toInt := by
    rw [toInt_neg_of_nonneg hstep]
    omega
  obtain ⟨change, hchange, -⟩ := clamp_eq distance hsteps
  obtain ⟨focus', hfocus', hnearest'⟩ := clamp_eq (saturatingAdd focus change) hbounds
  refine ⟨focus', ?_, hnearest' ▸ within_nearest hbounds _⟩
  have hchecked : checkedSub desired focus = some distance := hdistance
  simp [reactiveFocus, hnear, hdesired, hchecked, hchange, hfocus']

theorem reactiveFocuses_length (subjects : List Int64) (hfocus : Within (minimum.toInt, maximum.toInt) focus.toInt) :
    ∃ focuses, reactiveFocuses minimum maximum deadZone maximumStep focus subjects = some focuses ∧
      focuses.length = subjects.length := by
  induction subjects generalizing focus with
  | nil => exact ⟨[], rfl, rfl⟩
  | cons subject subjects ih =>
    obtain ⟨focus', hmove, hwithin⟩ := reactiveFocus_within hminimum hbounds hdeadZone hstep hfocus subject
    obtain ⟨focuses, hrest, hlength⟩ := ih hwithin
    refine ⟨focus' :: focuses, ?_, congrArg Nat.succ hlength⟩
    rw [reactiveFocuses, hmove, bind_eq_bind, bind_some, hrest]
    rfl

/-- There is a smoothed centre for each observed one. -/
theorem stabilizeTrackedCentresBasisPoints_length (observations : List Int64) :
    ∃ desired, stabilizeTrackedCentresBasisPoints minimum maximum deadZone maximumStep observations = some desired ∧
      desired.length = observations.length := by
  have hlength : (medianFilteredObservations observations).length = observations.length := length_mapIdx
  rw [stabilizeTrackedCentresBasisPoints, ← hlength]
  cases medianFilteredObservations observations with
  | nil => exact ⟨[], rfl, rfl⟩
  | cons first rest =>
    obtain ⟨focus, hfocus, hnearest⟩ := clamp_eq first hbounds
    rw [reactiveFocusValues, hfocus]
    exact reactiveFocuses_length hminimum hbounds hdeadZone hstep _ (hnearest ▸ within_nearest hbounds _)

end

end

/-! ## The passes -/

/-- The interval between two numbers of the program. -/
def numbers (interval : Int64 × Int64) : ℤ × ℤ := (interval.1.toInt, interval.2.toInt)

section

variable (minimum maximum maximumStep : Int64)

/-- The interval of a frame, within the bounds. -/
def effective (interval : Int64 × Int64) : ℤ × ℤ :=
  (max interval.1.toInt minimum.toInt, min interval.2.toInt maximum.toInt)

/-- The focus is in the interval of each frame, and moves in steps within the bounds. -/
structure Contained (containment : List (Int64 × Int64)) (values : List Int64) : Prop where
  allowed : List.Forall₂ (fun interval value => interval.1 ≤ value ∧ value ≤ interval.2) containment values
  bounds : ∀ value ∈ values, minimum ≤ value ∧ value ≤ maximum
  steps : values.IsChain fun value next => |next.toInt - value.toInt| ≤ maximumStep.toInt

/-- The frame is the first one up to which no focus is contained. -/
def FirstInfeasible (containment : List (Int64 × Int64)) (index : ℕ) : Prop :=
  index < containment.length ∧
    (∀ earlier < index, ∃ values, Contained minimum maximum maximumStep (containment.take (earlier + 1)) values) ∧
    ¬ ∃ values, Contained minimum maximum maximumStep (containment.take (index + 1)) values

end

section

variable {axis : String} {minimum maximum maximumStep : Int64} {previous : Option (Int64 × Int64)}
  {containment : List (Int64 × Int64)} {values : List Int64}

theorem within_effective {interval : Int64 × Int64} {value : Int64} : Within (effective minimum maximum interval) value.toInt ↔
    (interval.1 ≤ value ∧ value ≤ interval.2) ∧ minimum ≤ value ∧ value ≤ maximum := by
  simp only [Within, effective, le_iff_toInt_le, max_le_iff, le_min_iff]
  tauto

/-- A contained focus is a path within the intervals of the frames. -/
theorem contained_iff : Contained minimum maximum maximumStep containment values ↔
    Follows maximumStep.toInt none (containment.map (effective minimum maximum)) (values.map Int64.toInt) := by
  have hwithin : List.Forall₂ Within (containment.map (effective minimum maximum)) (values.map Int64.toInt) ↔
      List.Forall₂ (fun interval value => interval.1 ≤ value ∧ value ≤ interval.2) containment values ∧
        ∀ value ∈ values, minimum ≤ value ∧ value ≤ maximum := by
    rw [forall₂_map_left_iff, forall₂_map_right_iff]
    simp only [within_effective]
    induction containment generalizing values with
    | nil =>
      constructor
      · rintro ⟨⟩
        exact ⟨.nil, forall_mem_nil _⟩
      · rintro ⟨⟨⟩, -⟩
        exact .nil
    | cons interval containment ih =>
      cases values with
      | nil =>
        constructor
        · rintro ⟨⟩
        · rintro ⟨⟨⟩, -⟩
      | cons value values =>
        rw [forall₂_cons, forall₂_cons, forall_mem_cons, ih]
        exact and_and_and_comm
  constructor
  · intro h
    exact ⟨hwithin.mpr ⟨h.allowed, h.bounds⟩, (isChain_map _).mpr h.steps, fun _ _ interval hinterval => by cases hinterval⟩
  · intro h
    obtain ⟨hallowed, hbounds⟩ := hwithin.mp h.within
    exact ⟨hallowed, hbounds, (isChain_map _).mp h.steps⟩

/-- A path of integers is one of numbers of the program. -/
theorem exists_contained_iff : (∃ values, Contained minimum maximum maximumStep containment values) ↔
    Feasible maximumStep.toInt none (containment.map (effective minimum maximum)) := by
  constructor
  · rintro ⟨values, h⟩
    exact ⟨_, contained_iff.mp h⟩
  · rintro ⟨path, h⟩
    have hlift : (path.map Int64.ofInt).map Int64.toInt = path := by
      rw [map_map, map_congr_left (g := id), map_id]
      intro value hvalue
      obtain ⟨interval, hinterval, hwithin⟩ : ∃ interval ∈ containment, Within (effective minimum maximum interval) value := by
        obtain ⟨index, hindex, rfl⟩ := getElem_of_mem hvalue
        have hlength := h.within.length_eq
        have hwithin := (forall₂_iff_get.mp h.within).2 index (by omega) hindex
        rw [get_eq_getElem, getElem_map] at hwithin
        exact ⟨_, getElem_mem _, hwithin⟩
      have hlow := minimum.le_toInt
      have hhigh := maximum.toInt_lt
      obtain ⟨hleft, hright⟩ := hwithin
      rw [effective] at hleft hright
      exact toInt_ofInt_of_le (by omega) (by omega)
    exact ⟨path.map Int64.ofInt, contained_iff.mpr (hlift.symm ▸ h)⟩

/-- What the forward pass keeps of an interval. -/
def window (minimum maximum maximumStep : Int64) (previous : Option (Int64 × Int64)) (interval : Int64 × Int64) :
    Int64 × Int64 :=
  let from_ := match previous with
    | some window => (saturatingSub window.1 maximumStep, saturatingAdd window.2 maximumStep)
    | none => (minimum, maximum)
  (max (max interval.1 from_.1) minimum, min (min interval.2 from_.2) maximum)

/-- The forward pass keeps what can be reached. -/
theorem numbers_window (minimum maximum : Int64) (previous : Option (Int64 × Int64)) (hstep : 0 ≤ maximumStep.toInt)
    (interval : Int64 × Int64) :
    numbers (window minimum maximum maximumStep previous interval) =
      reach maximumStep.toInt (previous.map numbers) (effective minimum maximum interval) := by
  cases previous with
  | none =>
    simp [numbers, window, toInt_max, toInt_min, reach, effective]
  | some previous =>
    simp only [numbers, window, toInt_max, toInt_min, toInt_max_saturatingSub hstep, toInt_min_saturatingAdd hstep,
      map_some, reach, effective]
    rw [max_right_comm, min_right_comm]

theorem reachable_cons (axis : String) (minimum maximum maximumStep : Int64) (previous : Option (Int64 × Int64))
    (interval : Int64 × Int64) (frame : TimeCode) (rest : List ((Int64 × Int64) × TimeCode)) :
    ∃ reachableMinimum reachableMaximum,
      reachable axis minimum maximum maximumStep previous ((interval, frame) :: rest) = (do
        refuse ((window minimum maximum maximumStep previous interval).2 < (window minimum maximum maximumStep previous interval).1)
          (.containmentInfeasible frame axis interval.1 interval.2 reachableMinimum reachableMaximum)
        let windows ← reachable axis minimum maximum maximumStep (some (window minimum maximum maximumStep previous interval)) rest
        .ok (window minimum maximum maximumStep previous interval :: windows)) := by
  cases previous with
  | none | some previous => exact ⟨_, _, rfl⟩

/-- A step of the backward pass is one of the way back. -/
theorem backward_cons (hstep : 0 ≤ maximumStep.toInt) {rest : List (Int64 × (Int64 × Int64))} {interval : Int64 × Int64}
    (hrest : backward maximumStep rest = some values)
    (hne : (behind maximumStep.toInt (numbers interval) (values.map Int64.toInt)).1 ≤
      (behind maximumStep.toInt (numbers interval) (values.map Int64.toInt)).2) (desired : Int64) :
    ∃ value, backward maximumStep ((desired, interval) :: rest) = some (value :: values) ∧
      value.toInt = nearest (behind maximumStep.toInt (numbers interval) (values.map Int64.toInt)) desired.toInt := by
  cases values with
  | nil =>
    obtain ⟨value, hvalue, hnear⟩ := clamp_eq desired hne
    refine ⟨value, ?_, hnear⟩
    simp only [backward, hrest, bind_eq_bind, bind_some, head?_nil]
    rw [hvalue, bind_some]
  | cons next values =>
    have hbehind : behind maximumStep.toInt (numbers interval) ((next :: values).map Int64.toInt) =
        ((max interval.1 (saturatingSub next maximumStep)).toInt, (min interval.2 (saturatingAdd next maximumStep)).toInt) := by
      rw [toInt_max_saturatingSub hstep, toInt_min_saturatingAdd hstep]
      rfl
    rw [hbehind] at hne ⊢
    obtain ⟨value, hvalue, hnear⟩ := clamp_eq desired hne
    refine ⟨value, ?_, hnear⟩
    simp only [backward, hrest, bind_eq_bind, bind_some, head?_cons]
    rw [hvalue, bind_some]

/-- The passes find a way back, or stop at the first frame up to which there is no path. -/
inductive Passed (axis : String) (minimum maximum maximumStep : Int64) (previous : Option (Int64 × Int64))
    (items : List ((Int64 × Int64) × TimeCode)) (desired : List Int64) : Prop
  | found (windows : List (Int64 × Int64)) (values : List Int64)
      (forwards : reachable axis minimum maximum maximumStep previous items = .ok windows)
      (backwards : backward maximumStep (desired.zip windows) = some values)
      (approached : Approached maximumStep.toInt (previous.map numbers) (items.map fun item => effective minimum maximum item.1)
        (desired.map Int64.toInt) (values.map Int64.toInt))
  | stopped (index : ℕ) (item : (Int64 × Int64) × TimeCode) (reachableMinimum reachableMaximum : Int64)
      (found : items[index]? = some item)
      (forwards : reachable axis minimum maximum maximumStep previous items =
        .error (.containmentInfeasible item.2 axis item.1.1 item.1.2 reachableMinimum reachableMaximum))
      (before : Feasible maximumStep.toInt (previous.map numbers)
        ((items.map fun item => effective minimum maximum item.1).take index))
      (infeasible : ¬ Feasible maximumStep.toInt (previous.map numbers)
        ((items.map fun item => effective minimum maximum item.1).take (index + 1)))

/-- By induction on the frames, where the window before them is not empty. -/
theorem passed (hstep : 0 ≤ maximumStep.toInt) {items : List ((Int64 × Int64) × TimeCode)} {desired : List Int64}
    (hlength : desired.length = items.length) (hne : ∀ window ∈ previous, window.1.toInt ≤ window.2.toInt) :
    Passed axis minimum maximum maximumStep previous items desired := by
  have hstart : ∀ interval ∈ previous.map numbers, interval.1 ≤ interval.2 := by
    intro interval hinterval
    obtain ⟨window, hwindow, rfl⟩ := map_eq_some_iff.mp hinterval
    exact hne window hwindow
  induction items generalizing previous desired with
  | nil =>
    obtain rfl := length_eq_zero_iff.mp hlength
    refine .found [] [] rfl rfl ⟨⟨.nil, .nil, ?_⟩, ?_, fun _ => rfl⟩
    · rintro value ⟨⟩
    · rintro interval ⟨⟩
  | cons item items ih =>
    obtain ⟨interval, frame⟩ := item
    obtain ⟨wanted, desired, rfl⟩ := exists_cons_of_length_eq_add_one hlength
    have hkept := numbers_window minimum maximum previous hstep interval
    obtain ⟨reachableMinimum, reachableMaximum, hforward⟩ :=
      reachable_cons axis minimum maximum maximumStep previous interval frame items
    generalize window minimum maximum maximumStep previous interval = kept at hkept hforward
    by_cases hempty : kept.2 < kept.1
    · -- nothing of this frame can be reached
      refine .stopped 0 _ reachableMinimum reachableMaximum rfl ?_ feasible_nil fun hfeasible => ?_
      · rw [hforward, refuse, if_pos hempty]
        rfl
      · obtain ⟨hreach, -⟩ := (feasible_cons hstart hstep).mp hfeasible
        rw [← hkept] at hreach
        exact absurd (lt_iff_toInt_lt.mp hempty) (not_lt.mpr hreach)
    · have hreach : kept.1.toInt ≤ kept.2.toInt := not_lt.mp fun h => hempty (lt_iff_toInt_lt.mpr h)
      have hnext : ∀ window ∈ some kept, window.1.toInt ≤ window.2.toInt := by
        rintro window ⟨⟩
        exact hreach
      have hreach' := hreach
      change (numbers kept).1 ≤ (numbers kept).2 at hreach'
      rw [hkept] at hreach'
      rw [refuse_eq_ok (u := ()) |>.mpr hempty, ok_bind] at hforward
      have hrest : Passed axis minimum maximum maximumStep (some kept) items desired :=
        ih (Nat.succ.inj hlength) hnext (by rintro _ ⟨⟩; exact hreach)
      cases hrest with
      | found windows values forwards backwards approached =>
        rw [map_some, hkept] at approached
        have hbehind := approached.behind_le hstep hreach'
        rw [← hkept] at hbehind
        obtain ⟨value, hvalue, hnear⟩ := backward_cons hstep backwards hbehind wanted
        refine .found (kept :: windows) (value :: values) ?_ hvalue ?_
        · rw [hforward, forwards, ok_bind]
        · rw [hkept] at hnear
          rw [map_cons, map_cons, map_cons, hnear]
          exact approached.cons hstart hstep hreach'
      | stopped index item reachableMinimum reachableMaximum found forwards before infeasible =>
        rw [map_some, hkept] at before infeasible
        refine .stopped (index + 1) item reachableMinimum reachableMaximum found ?_ ?_ ?_
        · rw [hforward, forwards]
          rfl
        · exact (feasible_cons hstart hstep).mpr ⟨hreach', before⟩
        · exact fun h => infeasible ((feasible_cons hstart hstep).mp h).2

theorem Contained.take (h : Contained minimum maximum maximumStep containment values) (count : ℕ) :
    Contained minimum maximum maximumStep (containment.take count) (values.take count) where
  allowed := forall₂_take count h.allowed
  bounds value hvalue := h.bounds value (mem_of_mem_take hvalue)
  steps := h.steps.take count

theorem exists_contained_take {count : ℕ} :
    (∃ values, Contained minimum maximum maximumStep (containment.take count) values) ↔
      Feasible maximumStep.toInt none ((containment.map (effective minimum maximum)).take count) := by
  rw [exists_contained_iff, map_take]

section

variable {deadZone : Int64} {observations desired : List Int64} {frames : List TimeCode}

theorem planned_of_found {windows : List (Int64 × Int64)}
    (hdesired : stabilizeTrackedCentresBasisPoints minimum maximum deadZone maximumStep observations = some desired)
    (hlength : desired.length = observations.length)
    (forwards : reachable axis minimum maximum maximumStep none (containment.zip frames) = .ok windows)
    (backwards : backward maximumStep (desired.zip windows) = some values) :
    containmentAwareFocusValues observations containment frames axis minimum maximum deadZone maximumStep =
      some (.ok values) := by
  rw [containmentAwareFocusValues]
  split
  · rename_i hempty
    rw [hempty, length_nil, length_eq_zero_iff] at hlength
    rw [hlength] at backwards
    obtain rfl := Option.some.inj backwards
    rfl
  · simp [hdesired, forwards, backwards]

theorem planned_of_stopped {error : SubjectReframeError}
    (hdesired : stabilizeTrackedCentresBasisPoints minimum maximum deadZone maximumStep observations = some desired)
    (hframes : frames.length = observations.length)
    (forwards : reachable axis minimum maximum maximumStep none (containment.zip frames) = .error error) :
    containmentAwareFocusValues observations containment frames axis minimum maximum deadZone maximumStep =
      some (.error error) := by
  rw [containmentAwareFocusValues, if_neg]
  · simp [hdesired, forwards]
  · rintro rfl
    rw [length_eq_zero_iff.mp hframes, zip_nil_right] at forwards
    cases forwards

end

/-- Planning refuses at the first frame up to which no focus is contained, and finds a contained focus otherwise. -/
theorem containmentAwareFocusValues_exact {deadZone : Int64} {observations : List Int64} {frames : List TimeCode}
    (hcontainment : containment.length = observations.length) (hframes : frames.length = observations.length)
    (hminimum : 0 ≤ minimum.toInt) (hbounds : minimum ≤ maximum) (hdeadZone : 0 ≤ deadZone.toInt) (hstep : 0 ≤ maximumStep.toInt) :
    ∃ desired result,
      stabilizeTrackedCentresBasisPoints minimum maximum deadZone maximumStep observations = some desired ∧
      containmentAwareFocusValues observations containment frames axis minimum maximum deadZone maximumStep = some result ∧
      (∀ index, FirstInfeasible minimum maximum maximumStep containment index →
        ∃ frame interval reachableMinimum reachableMaximum,
          frames[index]? = some frame ∧ containment[index]? = some interval ∧
          result = .error (.containmentInfeasible frame axis interval.1 interval.2 reachableMinimum reachableMaximum)) ∧
      ((¬ ∃ index, FirstInfeasible minimum maximum maximumStep containment index) →
        ∃ values, result = .ok values ∧ Contained minimum maximum maximumStep containment values ∧
          (Contained minimum maximum maximumStep containment desired → values = desired)) := by
  obtain ⟨desired, hdesired, hlength⟩ := stabilizeTrackedCentresBasisPoints_length hminimum
    (le_iff_toInt_le.mp hbounds) hdeadZone hstep observations
  have hmap : (containment.zip frames).map (fun item => effective minimum maximum item.1) =
      containment.map (effective minimum maximum) := by
    have hfst : (containment.zip frames).map Prod.fst = containment := map_fst_zip (by omega)
    nth_rewrite 2 [← hfst]
    rw [map_map]
    rfl
  have hpassed : Passed axis minimum maximum maximumStep none (containment.zip frames) desired :=
    passed hstep (by rw [length_zip]; omega) (by rintro window ⟨⟩)
  refine ⟨desired, ?_⟩
  cases hpassed with
  | found windows values forwards backwards approached =>
    rw [hmap] at approached
    have hvalues := contained_iff.mpr approached.follows
    refine ⟨.ok values, hdesired, planned_of_found hdesired hlength forwards backwards, fun index hfirst => ?_, fun _ => ?_⟩
    · exact absurd ⟨_, hvalues.take _⟩ hfirst.2.2
    · refine ⟨values, rfl, hvalues, fun hcontained => ?_⟩
      exact map_injective_iff.mpr (fun _ _ => toInt_inj.mp) (approached.same (contained_iff.mp hcontained))
  | stopped index item reachableMinimum reachableMaximum found forwards before infeasible =>
    rw [hmap] at before infeasible
    obtain ⟨hinterval, hframe⟩ := getElem?_zip_eq_some.mp found
    refine ⟨_, hdesired, planned_of_stopped hdesired hframes forwards, fun other hfirst => ?_, fun hnone => ?_⟩
    · -- the two are the first ones, so they are the same
      obtain ⟨-, hbefore, hstop⟩ := hfirst
      rw [exists_contained_take] at hstop
      have hle : other ≤ index := by
        by_contra hlater
        exact infeasible (exists_contained_take.mp (hbefore index (not_le.mp hlater)))
      have hge : index ≤ other := by
        by_contra hearlier
        have hpart := before.take (other + 1)
        rw [take_take, min_eq_left (by omega)] at hpart
        exact hstop hpart
      obtain rfl := le_antisymm hle hge
      exact ⟨_, _, _, _, hframe, hinterval, rfl⟩
    · refine absurd ⟨index, ?_, fun earlier hearlier => ?_, ?_⟩ hnone
      · exact (List.getElem?_eq_some_iff.mp hinterval).choose
      · have hpart := before.take (earlier + 1)
        rw [take_take, min_eq_left (by omega)] at hpart
        exact exists_contained_take.mpr hpart
      · exact fun h => infeasible (exists_contained_take.mp h)

end

/-- A subject that crosses the picture faster than the focus can follow it. -/
theorem containmentAwareFocusValues_exact_crossing : ∃ desired result,
    stabilizeTrackedCentresBasisPoints 0 10000 600 2500 [3000, 5200, 9000] = some desired ∧
    containmentAwareFocusValues [3000, 5200, 9000] [(2000, 4000), (4000, 7000), (8000, 10000)] [0, 10, 20] "horizontal"
      0 10000 600 2500 = some result ∧
    (∀ index, FirstInfeasible 0 10000 2500 [(2000, 4000), (4000, 7000), (8000, 10000)] index →
      ∃ frame interval reachableMinimum reachableMaximum, ([0, 10, 20] : List TimeCode)[index]? = some frame ∧
        ([(2000, 4000), (4000, 7000), (8000, 10000)] : List (Int64 × Int64))[index]? = some interval ∧
        result = .error (.containmentInfeasible frame "horizontal" interval.1 interval.2 reachableMinimum reachableMaximum)) ∧
    ((¬ ∃ index, FirstInfeasible 0 10000 2500 [(2000, 4000), (4000, 7000), (8000, 10000)] index) →
      ∃ values, result = .ok values ∧ Contained 0 10000 2500 [(2000, 4000), (4000, 7000), (8000, 10000)] values ∧
        (Contained 0 10000 2500 [(2000, 4000), (4000, 7000), (8000, 10000)] desired → values = desired)) :=
  containmentAwareFocusValues_exact rfl rfl (by decide) (by decide) (by decide) (by decide)

example : containmentAwareFocusValues [3000, 5200, 9000] [(2000, 4000), (4000, 7000), (8000, 10000)] [0, 10, 20] "horizontal"
    0 10000 600 2500 = some (.ok [3000, 5500, 8000]) := by decide +kernel

end Kinewright.Multicam
