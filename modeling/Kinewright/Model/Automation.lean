import Kinewright.Model.Time

/-!
# Automation curves

`automation.rs`: the integer evaluation of a curve of keyframes, and the curves that a clip keeps
when an edit moves its origin or shortens it.
-/

namespace Kinewright.Model

open Fallible List

/-- `CURVE_SCALE`. -/
def curveScale : ℤ := 1000000

/-- `MAX_KEY_FRAME_OFFSET`. -/
def maxKeyFrameOffset : ℕ := 2 ^ 40

inductive KeyframeInterpolation
  | hold
  | linear
  | easeIn
  | easeOut
  | easeInOut
deriving DecidableEq

structure Keyframe where
  at_ : TimeCode
  value : Int64
  interpolation : KeyframeInterpolation
  tangentIn : Int64
  tangentOut : Int64
deriving DecidableEq

structure AutomationCurve where
  keyframes : List Keyframe
deriving DecidableEq

/-- `i64::saturating_sub`. -/
def saturatingSub (a b : Int64) : Int64 := Int64.ofIntClamp (a.toInt - b.toInt)

/-- `i64::saturating_add`. -/
def saturatingAdd (a b : Int64) : Int64 := Int64.ofIntClamp (a.toInt + b.toInt)

/-- A difference between two frame counts is exact. -/
theorem saturatingSub_eq {a b : Int64} (lower upper : Int64)
    (hlower : lower.toInt ≤ a.toInt - b.toInt) (hupper : a.toInt - b.toInt ≤ upper.toInt) :
    (saturatingSub a b).toInt = a.toInt - b.toInt :=
  Int64.toInt_ofIntClamp (Int.le_trans lower.minValue_le_toInt hlower) (Int.le_trans hupper upper.toInt_le)

/-! ## Evaluation -/

/-- `ease_kernel`, on values from zero to the scale, where no step of it overflows. -/
def easeKernel (value : ℤ) : KeyframeInterpolation → ℤ
  | .hold => 0
  | .linear => value
  | .easeIn => (value * value).tdiv curveScale
  | .easeOut =>
    let inverse := curveScale - value
    curveScale - (inverse * inverse).tdiv curveScale
  | .easeInOut =>
    let squared := (value * value).tdiv curveScale
    (squared * (3 * curveScale - 2 * value)).tdiv curveScale

/-- `rounded_div_kernel`: half away from zero. -/
def roundedDivKernel (numerator : Int64) (denominator : ℤ) : Option ℤ :=
  if 0 ≤ numerator.toInt then
    (tryFrom (numerator.toInt + denominator.tdiv 2)).map fun biased =>
      biased.toInt.tdiv denominator
  else
    (tryFrom (numerator.toInt - denominator.tdiv 2)).map fun biased =>
      biased.toInt.tdiv denominator

/-- The value of one segment of `value_at_keys`. -/
def segmentValue (start stop : Keyframe) (at_ : TimeCode) : Option Int64 :=
  if start.interpolation = .hold then some start.value
  else do
    let span ← checkedSub stop.at_ start.at_
    let offset ← checkedSub at_ start.at_
    let scaled := Int64.ofIntClamp (offset.toInt * curveScale)
    let linear := scaled.toInt.tdiv span.toInt
    let eased := easeKernel linear start.interpolation
    let delta ← checkedSub stop.value start.value
    let product ← tryFrom (delta.toInt * eased)
    let adjustment ← roundedDivKernel product curveScale
    tryFrom (start.value.toInt + adjustment)

/-- The window scan of `value_at_keys`. -/
def scanKeys (at_ : TimeCode) : List Keyframe → Option Int64
  | start :: stop :: rest => if start.at_ ≤ at_ ∧ at_ < stop.at_ then segmentValue start stop at_
    else scanKeys at_ (stop :: rest)
  | _ => none

/-- `value_at_keys`. -/
def valueAtKeys (keys : List Keyframe) (at_ : TimeCode) : Option Int64 :=
  match keys.head?, keys.getLast? with
  | some first, some last =>
    if at_ ≤ first.at_ then some first.value
    else if last.at_ ≤ at_ then some last.value
    else scanKeys at_ keys
  | _, _ => none

namespace AutomationCurve

/-- `AutomationCurve::value_at`. -/
def valueAt (curve : AutomationCurve) (at_ : TimeCode) : Option Int64 := valueAtKeys curve.keyframes at_

/-- The curve enables what it keys at the frame. -/
def enables (curve : AutomationCurve) (at_ : TimeCode) : Bool := (curve.valueAt at_).any fun value => 1 ≤ value.toInt

inductive Error
  | empty
  | negativePosition
  | unordered
  | positionOutOfBounds
deriving DecidableEq

/-- `AutomationCurve::validate`, of the keys after the first. -/
def validateKeys : List Keyframe → Except Error Unit
  | key :: next :: keys => if next.at_.toInt < 0 then .error .negativePosition
    else if next.at_ ≤ key.at_ then .error .unordered
    else validateKeys (next :: keys)
  | _ => .ok ()

/-- `AutomationCurve::validate`. -/
def validate (curve : AutomationCurve) : Except Error Unit :=
  match curve.keyframes with
  | [] => .error .empty
  | first :: _ => if first.at_.toInt < 0 then .error .negativePosition else validateKeys curve.keyframes

/-- `AutomationCurve::validate_ordered`. -/
def validateOrdered (curve : AutomationCurve) : Except Error Unit :=
  if curve.keyframes = [] then .error .empty
  else if ∃ key ∈ curve.keyframes, maxKeyFrameOffset < key.at_.toInt.natAbs then
    .error .positionOutOfBounds
  else if ¬ curve.keyframes.IsChain fun key next => key.at_ < next.at_ then .error .unordered
  else .ok ()

/-- `AutomationCurve::segment_interpolation_at`. -/
def segmentInterpolationAt (curve : AutomationCurve) (at_ : TimeCode) : KeyframeInterpolation :=
  match curve.keyframes with
  | [] => .linear
  | first :: _ =>
    if at_ ≤ first.at_ then first.interpolation
    else ((curve.keyframes.reverse.find? fun key => key.at_ ≤ at_).map Keyframe.interpolation).getD first.interpolation

end AutomationCurve

/-! ## Rebasing -/

/-- `boundary_key`: a key at `at_`, valued as the curve reads at `source`. -/
def boundaryKey (curve : AutomationCurve) (at_ source : TimeCode) : Keyframe where
  at_ := at_
  value := (curve.valueAt source).getD ((curve.keyframes.head?.map Keyframe.value).getD 0)
  interpolation := curve.segmentInterpolationAt source
  tangentIn := 0
  tangentOut := 0

/-- Insert a key into a map by position: it replaces the key of its position. -/
def insertKey (key : Keyframe) : List Keyframe → List Keyframe
  | [] => [key]
  | other :: keys => if key.at_ < other.at_ then key :: other :: keys else if key.at_ = other.at_ then key :: keys
    else other :: insertKey key keys

/-- `rebase_clip_curve`. -/
def rebaseClipCurve (curve : AutomationCurve) (deltaLocal newDuration : TimeCode) :
    AutomationCurve :=
  if curve.keyframes = [] then curve
  else if newDuration.toInt ≤ 0 then { keyframes := [boundaryKey curve 0 deltaLocal] }
  else
    let shifted := curve.keyframes.map fun key =>
      { key with at_ := saturatingSub key.at_ deltaLocal }
    let inside := shifted.filter fun key => 0 ≤ key.at_.toInt ∧ key.at_ < newDuration
    let keys := inside.foldl (fun keys key => insertKey key keys) []
    let keys :=
      if curve.keyframes.any fun key => key.at_ < deltaLocal then
        insertKey (boundaryKey curve 0 deltaLocal) keys
      else keys
    let rightSource := saturatingSub (saturatingAdd deltaLocal newDuration) 1
    let keys :=
      if curve.keyframes.any fun key => newDuration.toInt ≤ key.at_.toInt - deltaLocal.toInt then
        insertKey (boundaryKey curve (saturatingSub newDuration 1) rightSource) keys
      else keys
    if keys = [] then { keyframes := [boundaryKey curve 0 deltaLocal] } else { keyframes := keys }

/-- `clamp_project_curve`. -/
def clampProjectCurve (curve : AutomationCurve) (newDuration : TimeCode) : AutomationCurve :=
  if curve.keyframes = [] then curve
  else if newDuration.toInt ≤ 0 then { keyframes := [boundaryKey curve 0 0] }
  else if curve.keyframes.all fun key => key.at_ < newDuration then curve
  else
    let boundary := saturatingSub newDuration 1
    let keys := (curve.keyframes.filter fun key => key.at_ < newDuration).foldl
      (fun keys key => insertKey key keys) []
    { keyframes := insertKey (boundaryKey curve boundary boundary) keys }

/-- `rebase_clip_curve_keep_outside`: every key moves, none is dropped. -/
def rebaseClipCurveKeepOutside (curve : AutomationCurve) (deltaLocal : TimeCode) :
    AutomationCurve where
  keyframes := curve.keyframes.map fun key =>
    { key with at_ := saturatingSub key.at_ deltaLocal }

/-! ## Moving a curve keeps its values -/

/-- A saturated difference is one of the extreme frames. -/
theorem saturatingSub_toInt {a b : Int64} (h : (saturatingSub a b).toInt.natAbs ≤ maxKeyFrameOffset) :
    (saturatingSub a b).toInt = a.toInt - b.toInt := by
  rw [saturatingSub, Int64.ofIntClamp] at h ⊢
  by_cases hlower : Int64.minValue.toInt ≤ a.toInt - b.toInt
  · rw [dif_pos hlower] at h ⊢
    by_cases hupper : a.toInt - b.toInt ≤ Int64.maxValue.toInt
    · rw [dif_pos hupper, Int64.toInt_ofIntLE]
    · rw [dif_neg hupper] at h
      exact absurd h (by decide)
  · rw [dif_neg hlower] at h
    exact absurd h (by decide)

/-- A moved key keeps its values; its distance to a moved frame is the old distance. -/
structure Keyframe.Moves (delta : ℤ) (key key' : Keyframe) : Prop where
  at_ : key'.at_.toInt = key.at_.toInt - delta
  value : key'.value = key.value
  interpolation : key'.interpolation = key.interpolation

variable {delta : ℤ} {at_ at' : TimeCode}

theorem segmentValue_moves {start stop start' stop' : Keyframe} (hstart : start.Moves delta start')
    (hstop : stop.Moves delta stop') (hat : at'.toInt = at_.toInt - delta) :
    segmentValue start' stop' at' = segmentValue start stop at_ := by
  have hspan : checkedSub stop'.at_ start'.at_ = checkedSub stop.at_ start.at_ := by
    rw [checkedSub, hstart.at_, hstop.at_]
    congr 1
    omega
  have hoffset : checkedSub at' start'.at_ = checkedSub at_ start.at_ := by
    rw [checkedSub, hstart.at_]
    congr 1
    omega
  rw [segmentValue, segmentValue, hstart.interpolation, hstart.value, hstop.value, hspan, hoffset]

theorem scanKeys_moves {f : Keyframe → Keyframe} {keys : List Keyframe}
    (h : ∀ key ∈ keys, key.Moves delta (f key)) (hat : at'.toInt = at_.toInt - delta) :
    scanKeys at' (keys.map f) = scanKeys at_ keys := by
  induction keys with
  | nil => rfl
  | cons start rest ih =>
    obtain ⟨hstart, hrest⟩ := forall_mem_cons.mp h
    cases rest with
    | nil => rfl
    | cons stop rest =>
      have hstop := hrest stop mem_cons_self
      rw [map_cons, map_cons, scanKeys, scanKeys, ← map_cons, ih hrest, segmentValue_moves hstart hstop hat]
      simp [Int64.le_iff_toInt_le, Int64.lt_iff_toInt_lt, hstart.at_, hstop.at_, hat]

/-- A moved curve reads at a moved frame what the curve reads at the frame. -/
theorem valueAtKeys_moves {f : Keyframe → Keyframe} {keys : List Keyframe}
    (h : ∀ key ∈ keys, key.Moves delta (f key)) (hat : at'.toInt = at_.toInt - delta) :
    valueAtKeys (keys.map f) at' = valueAtKeys keys at_ := by
  rw [valueAtKeys, valueAtKeys, head?_map, getLast?_map, scanKeys_moves h hat]
  rcases hfirst : keys.head? with _ | first
  · rfl
  rcases hlast : keys.getLast? with _ | last
  · rfl
  have hmoved := h first (mem_of_mem_head? hfirst)
  have hmoved' := h last (mem_of_mem_getLast? hlast)
  simp [hmoved.value, hmoved'.value, Int64.le_iff_toInt_le, hmoved.at_, hmoved'.at_, hat]

namespace AutomationCurve

theorem validateOrdered_bound {curve : AutomationCurve} (h : curve.validateOrdered = .ok ())
    {key : Keyframe} (hkey : key ∈ curve.keyframes) :
    key.at_.toInt.natAbs ≤ maxKeyFrameOffset := by
  rw [validateOrdered, unless_eq_ok, unless_eq_ok] at h
  have hbound := h.2.1
  push Not at hbound
  exact hbound key hkey

/-- A rebased curve that is valid enables at a rebased frame what the curve enables at the frame. -/
theorem enables_keepOutside {curve : AutomationCurve} {deltaLocal : TimeCode}
    (h : (rebaseClipCurveKeepOutside curve deltaLocal).validateOrdered = .ok ())
    (hat : at'.toInt = at_.toInt - deltaLocal.toInt) :
    (rebaseClipCurveKeepOutside curve deltaLocal).enables at' = curve.enables at_ := by
  have hmoves : ∀ key ∈ curve.keyframes, key.Moves deltaLocal.toInt
      { key with at_ := saturatingSub key.at_ deltaLocal } := by
    intro key hkey
    refine ⟨saturatingSub_toInt ?_, rfl, rfl⟩
    exact validateOrdered_bound h (mem_map_of_mem hkey)
  rw [enables, enables, valueAt, valueAt, rebaseClipCurveKeepOutside, valueAtKeys_moves hmoves hat]

end AutomationCurve

end Kinewright.Model
