import Mathlib.Data.List.Sort
import Kinewright.Model.Automation

/-!
# The focus of a reframed subject

`multicam.rs`: the observed centres of a subject are smoothed by a filter and by a controller that moves in small steps. Where
the subject has to stay in the picture, what the focus can reach is computed forwards, and the focus is then taken backwards
through it. Nothing is returned where the source panics.
-/

namespace Kinewright.Multicam

open Fallible Model

inductive SubjectReframeError
  | containmentInfeasible (frame : TimeCode) (axis : String) (allowedMinimum allowedMaximum reachableMinimum
      reachableMaximum : Int64)
deriving DecidableEq

/-- `Ord::clamp`, which panics on an empty interval. -/
def clamp (value low high : Int64) : Option Int64 :=
  if low ≤ high then some (if value < low then low else if high < value then high else value) else none

/-! ## Smoothing -/

/-- The middle one of a sorted window of three. -/
def median (first second third : Int64) : Int64 :=
  ([first, second, third].insertionSort fun left right => left ≤ right).getD 1 0

/-- `median_filtered_observations`: the last of three or more observations gets the window of the one before it. -/
def medianFilteredObservations (observations : List Int64) : List Int64 :=
  let at_ (index : ℕ) := observations.getD index 0
  observations.mapIdx fun index observation =>
    if 1 ≤ index ∧ index + 1 < observations.length then median (at_ (index - 1)) (at_ index) (at_ (index + 1))
    else if 3 ≤ observations.length ∧ index + 1 = observations.length then
      median (at_ (index - 2)) (at_ (index - 1)) (at_ index)
    else observation

section

variable (minimum maximum deadZone maximumStep : Int64)

/-- Where the controller of `reactive_focus_values` moves the focus for a subject. -/
def reactiveFocus (focus subject : Int64) : Option Int64 := do
  let subject ← clamp subject minimum maximum
  let desired :=
    if subject < saturatingSub focus deadZone then saturatingAdd subject deadZone
    else if saturatingAdd focus deadZone < subject then saturatingSub subject deadZone
    else focus
  let change ← clamp (← checkedSub desired focus) (-maximumStep) maximumStep
  clamp (saturatingAdd focus change) minimum maximum

/-- The loop of `reactive_focus_values`. -/
def reactiveFocuses (focus : Int64) : List Int64 → Option (List Int64)
  | [] => some []
  | subject :: subjects => do
    let focus ← reactiveFocus minimum maximum deadZone maximumStep focus subject
    let rest ← reactiveFocuses focus subjects
    some (focus :: rest)

/-- `reactive_focus_values`. -/
def reactiveFocusValues (filtered : List Int64) : Option (List Int64) :=
  match filtered with
  | [] => some []
  | first :: _ => do
    let focus ← clamp first minimum maximum
    reactiveFocuses minimum maximum deadZone maximumStep focus filtered

/-- `stabilize_tracked_centres_basis_points`. -/
def stabilizeTrackedCentresBasisPoints (observations : List Int64) : Option (List Int64) :=
  reactiveFocusValues minimum maximum deadZone maximumStep (medianFilteredObservations observations)

end

/-! ## Containment -/

section

variable (axis : String) (minimum maximum maximumStep : Int64)

/-- The forward pass of `containment_aware_focus_values`: what the focus can reach of the interval of each frame. -/
def reachable (previous : Option (Int64 × Int64)) :
    List ((Int64 × Int64) × TimeCode) → Except SubjectReframeError (List (Int64 × Int64))
  | [] => .ok []
  | ((allowedMinimum, allowedMaximum), frame) :: rest => do
    let (reachableMinimum, reachableMaximum) :=
      match previous with
      | some (previousMinimum, previousMaximum) =>
        (saturatingSub previousMinimum maximumStep, saturatingAdd previousMaximum maximumStep)
      | none => (minimum, maximum)
    let lower := max (max allowedMinimum reachableMinimum) minimum
    let upper := min (min allowedMaximum reachableMaximum) maximum
    refuse (upper < lower)
      (.containmentInfeasible frame axis allowedMinimum allowedMaximum reachableMinimum reachableMaximum)
    let windows ← reachable (some (lower, upper)) rest
    .ok ((lower, upper) :: windows)

/-- The backward pass: each value is next to the desired one and no further than a step from the value behind it. -/
def backward : List (Int64 × (Int64 × Int64)) → Option (List Int64)
  | [] => some []
  | (desired, (lower, upper)) :: rest => do
    let values ← backward rest
    let value ← match values.head? with
      | none => clamp desired lower upper
      | some next => clamp desired (max lower (saturatingSub next maximumStep)) (min upper (saturatingAdd next maximumStep))
    some (value :: values)

end

/-- `containment_aware_focus_values`. -/
def containmentAwareFocusValues (observations : List Int64) (containment : List (Int64 × Int64)) (frames : List TimeCode)
    (axis : String) (minimum maximum deadZone maximumStep : Int64) :
    Option (Except SubjectReframeError (List Int64)) :=
  if observations = [] then some (.ok [])
  else do
    let desired ← stabilizeTrackedCentresBasisPoints minimum maximum deadZone maximumStep observations
    match reachable axis minimum maximum maximumStep none (containment.zip frames) with
    | .error error => some (.error error)
    | .ok windows => do
      let values ← backward maximumStep (desired.zip windows)
      some (.ok values)

end Kinewright.Multicam
