import Mathlib.Data.List.Infix
import Mathlib.Tactic.Linarith
import Mathlib.Tactic.Ring
import Kinewright.Lib.Rounding
import Kinewright.Model.Automation

/-!
# The values of a curve

`value_at_keys` of `automation.rs`, compared with the same formula over the integers. Within the bound of key
values no step of the evaluation overflows. Three nested quotients are cut off, and the outermost one is rounded;
whether a value still moves in one direction only, depends on the cuts.
-/

namespace Kinewright.Model

open Fallible Rounding List Option

/-! ## The exact formula -/

/-- `PROVEN_VALUE_BOUND`. -/
def provenValueBound : ℤ := 1000000

/-- How far a frame is between two keys, of the scale. -/
def linearAt (start stop : Keyframe) (at_ : ℤ) : ℤ :=
  (at_ - start.at_.toInt) * curveScale / (stop.at_.toInt - start.at_.toInt)

/-- The value at a frame of the segment between two keys. -/
def exactSegment (start stop : Keyframe) (at_ : ℤ) : ℤ :=
  if start.interpolation = .hold then start.value.toInt
  else
    start.value.toInt + halfAway curveScale
      ((stop.value.toInt - start.value.toInt) * easeKernel (linearAt start stop at_) start.interpolation)

/-- The value at a frame that the first segment with the frame gives. -/
def exactScan (at_ : ℤ) : List Keyframe → Option ℤ
  | start :: stop :: rest => if start.at_.toInt ≤ at_ ∧ at_ < stop.at_.toInt then some (exactSegment start stop at_)
    else exactScan at_ (stop :: rest)
  | _ => none

/-- The value at a frame: outside of the keys it is that of the end key. -/
def exactAtKeys (keys : List Keyframe) (at_ : ℤ) : Option ℤ :=
  match keys.head?, keys.getLast? with
  | some first, some last =>
    if at_ ≤ first.at_.toInt then some first.value.toInt
    else if last.at_.toInt ≤ at_ then some last.value.toInt
    else exactScan at_ keys
  | _, _ => none

/-! ## Easing -/

section Easing

variable {t t' : ℤ}

section

variable (h : 0 ≤ t) (hle : t ≤ curveScale)

include h hle

/-- A smooth step does not pass the end. -/
theorem smooth_le : t * t / curveScale * (3 * curveScale - 2 * t) ≤ curveScale * curveScale := by
  rw [curveScale] at *
  have hsquare : 1000000 * (t * t / 1000000) ≤ t * t := Int.mul_ediv_self_le (by decide)
  generalize t * t / 1000000 = square at hsquare
  -- `S ^ 3 - t ^ 2 * (3 * S - 2 * t)` is `(S - t) ^ 2 * (S + 2 * t)`
  have hcubic : 0 ≤ (1000000 - t) ^ 2 * (1000000 + 2 * t) := by positivity
  nlinarith

theorem easeKernel_eq (interpolation : KeyframeInterpolation) : easeKernel t interpolation = match interpolation with
      | .hold => 0
      | .linear => t
      | .easeIn => t * t / curveScale
      | .easeOut => curveScale - (curveScale - t) * (curveScale - t) / curveScale
      | .easeInOut => t * t / curveScale * (3 * curveScale - 2 * t) / curveScale := by
  have hsquare : 0 ≤ t * t := mul_self_nonneg t
  have hroot : 0 ≤ t * t / curveScale := Int.ediv_nonneg hsquare (by decide)
  cases interpolation with
  | hold => rfl
  | linear => rfl
  | easeIn => rw [easeKernel, Int.tdiv_eq_ediv_of_nonneg hsquare]
  | easeOut => rw [easeKernel, Int.tdiv_eq_ediv_of_nonneg (mul_self_nonneg (curveScale - t))]
  | easeInOut =>
    have hfactor : 0 ≤ 3 * curveScale - 2 * t := by
      omega
    rw [easeKernel, Int.tdiv_eq_ediv_of_nonneg hsquare, Int.tdiv_eq_ediv_of_nonneg (Int.mul_nonneg hroot hfactor)]

theorem easeKernel_bounds (interpolation : KeyframeInterpolation) :
    0 ≤ easeKernel t interpolation ∧ easeKernel t interpolation ≤ curveScale := by
  have hscale : 0 < curveScale := by decide
  have hquotient {n : ℤ} (hn : 0 ≤ n) (hle : n ≤ curveScale * curveScale) :
      0 ≤ n / curveScale ∧ n / curveScale ≤ curveScale :=
    ⟨Int.ediv_nonneg hn hscale.le, Int.ediv_le_of_le_mul hscale hle⟩
  have hsquare {a : ℤ} (ha : 0 ≤ a) (hle : a ≤ curveScale) : a * a ≤ curveScale * curveScale :=
    Int.mul_le_mul hle hle ha hscale.le
  rw [easeKernel_eq h hle]
  cases interpolation with
  | hold => exact ⟨Int.le_refl 0, hscale.le⟩
  | linear => exact ⟨h, hle⟩
  | easeIn => exact hquotient (mul_self_nonneg t) (hsquare h hle)
  | easeOut =>
    have := hquotient (mul_self_nonneg (curveScale - t)) (hsquare (by omega) (by omega))
    dsimp only
    omega
  | easeInOut =>
    refine hquotient (Int.mul_nonneg (Int.ediv_nonneg (mul_self_nonneg t) hscale.le) ?_) (smooth_le h hle)
    omega

end

theorem easeKernel_zero (interpolation : KeyframeInterpolation) : easeKernel 0 interpolation = 0 := by
  cases interpolation <;> decide

/-- Every easing but the smooth step is monotone. -/
theorem easeKernel_mono {interpolation : KeyframeInterpolation} (hkind : interpolation ≠ .easeInOut) (h : 0 ≤ t)
    (hle : t ≤ t') (hle' : t' ≤ curveScale) : easeKernel t interpolation ≤ easeKernel t' interpolation := by
  have hscale : 0 < curveScale := by decide
  rw [easeKernel_eq h (by omega), easeKernel_eq (by omega) hle']
  cases interpolation with
  | hold => exact Int.le_refl 0
  | linear => exact hle
  | easeIn => exact Int.ediv_le_ediv hscale (Int.mul_le_mul hle hle h (by omega))
  | easeOut =>
    have hle : curveScale - t' ≤ curveScale - t := by omega
    have := Int.ediv_le_ediv hscale (Int.mul_le_mul hle hle (by omega) (by omega))
    dsimp only
    omega
  | easeInOut => exact absurd rfl hkind

end Easing

/-! ## One segment -/

/-- The key lies within the bounds of evaluation. -/
structure Keyframe.Bounded (key : Keyframe) : Prop where
  at_ : key.at_.toInt.natAbs ≤ maxKeyFrameOffset
  value : key.value.toInt.natAbs ≤ provenValueBound

section Segment

variable {start stop : Keyframe} {at_ : TimeCode} {frame : ℤ}

theorem linearAt_bounds (hle : start.at_.toInt ≤ frame) (hlt : frame < stop.at_.toInt) :
    0 ≤ linearAt start stop frame ∧ linearAt start stop frame ≤ curveScale := by
  refine ⟨Int.ediv_nonneg (Int.mul_nonneg (by omega) (by decide)) (by omega), ?_⟩
  refine Int.ediv_le_of_le_mul (by omega) ?_
  rw [Int.mul_comm curveScale]
  exact Int.mul_le_mul_of_nonneg_right (by omega) (by decide)

theorem linearAt_mono {frame' : ℤ} (hle : start.at_.toInt ≤ frame) (hframes : frame ≤ frame')
    (hlt : frame' < stop.at_.toInt) : linearAt start stop frame ≤ linearAt start stop frame' :=
  Int.ediv_le_ediv (by omega) (Int.mul_le_mul_of_nonneg_right (by omega) (by decide))

theorem exactSegment_start (start stop : Keyframe) : exactSegment start stop start.at_.toInt = start.value.toInt := by
  rw [exactSegment]
  split
  · rfl
  · rw [linearAt, Int.sub_self, Int.zero_mul, Int.zero_ediv, easeKernel_zero, Int.mul_zero, halfAway_zero (by decide),
      Int.add_zero]

/-- What the formula adds to the first value goes no further than the second value. -/
theorem adjustment_between {eased : ℤ} (delta : ℤ) (h : 0 ≤ eased) (hle : eased ≤ curveScale) :
    min 0 delta ≤ halfAway curveScale (delta * eased) ∧ halfAway curveScale (delta * eased) ≤ max 0 delta := by
  have hscale : 0 < curveScale := by decide
  have hend := halfAway_mul hscale delta
  have hzero := halfAway_zero hscale
  rw [Int.mul_comm] at hend
  rcases le_total 0 delta with hdelta | hdelta
  · have hlow := halfAway_mono hscale (Int.mul_nonneg hdelta h)
    have hhigh := halfAway_mono hscale (Int.mul_le_mul_of_nonneg_left hle hdelta)
    omega
  · have hlow := halfAway_mono hscale (Int.mul_le_mul_of_nonpos_left hdelta hle)
    have hhigh := halfAway_mono hscale (Int.mul_nonpos_of_nonpos_of_nonneg hdelta h)
    omega

/-- The values of a segment lie between those of its keys. -/
theorem exactSegment_between (hle : start.at_.toInt ≤ frame) (hlt : frame < stop.at_.toInt) :
    min start.value.toInt stop.value.toInt ≤ exactSegment start stop frame ∧
      exactSegment start stop frame ≤ max start.value.toInt stop.value.toInt := by
  rw [exactSegment]
  split
  · omega
  · have hlinear := linearAt_bounds hle hlt
    have heased := easeKernel_bounds hlinear.1 hlinear.2 start.interpolation
    have hadjustment := adjustment_between (stop.value.toInt - start.value.toInt) heased.1 heased.2
    omega

theorem roundedDivKernel_exact {numerator : Int64} (h : numerator.toInt.natAbs ≤ 2 ^ 62) :
    roundedDivKernel numerator curveScale = some (halfAway curveScale numerator.toInt) := by
  have hhalf : curveScale.tdiv 2 = 500000 := rfl
  have hhalf' : curveScale / 2 = 500000 := rfl
  rw [roundedDivKernel, halfAway, hhalf, hhalf']
  split
  · obtain ⟨biased, hbiased, hint⟩ := exists_tryFrom_of_lt (n := numerator.toInt + 500000) (by omega) (by omega)
    rw [hbiased, map_some, hint, Int.tdiv_eq_ediv_of_nonneg (by omega)]
  · obtain ⟨biased, hbiased, hint⟩ := exists_tryFrom_of_lt (n := numerator.toInt - 500000) (by omega) (by omega)
    have hneg : numerator.toInt - 500000 = -(-numerator.toInt + 500000) := by omega
    rw [hbiased, map_some, hint, hneg, Int.neg_tdiv, Int.tdiv_eq_ediv_of_nonneg (by omega)]

/-- Between bounded values the rounded adjustment of an easing does not overflow. -/
theorem exists_eased_value (hstart : start.value.toInt.natAbs ≤ provenValueBound)
    (hstop : stop.value.toInt.natAbs ≤ provenValueBound) {eased : ℤ} (h : 0 ≤ eased) (hle : eased ≤ curveScale) :
    ∃ value, ((checkedSub stop.value start.value).bind fun delta => (tryFrom (delta.toInt * eased)).bind fun product =>
        (roundedDivKernel product curveScale).bind fun adjustment => tryFrom (start.value.toInt + adjustment)) = some value ∧
      value.toInt = start.value.toInt + halfAway curveScale ((stop.value.toInt - start.value.toInt) * eased) := by
  have hscale : curveScale = 1000000 := rfl
  rw [provenValueBound] at hstart hstop
  have hbetween := adjustment_between (stop.value.toInt - start.value.toInt) h hle
  obtain ⟨delta, hdelta, hdeltaInt⟩ :=
    exists_tryFrom_of_lt (n := stop.value.toInt - start.value.toInt) (by omega) (by omega)
  have hproductBound : ((stop.value.toInt - start.value.toInt) * eased).natAbs ≤ 2000000 * 1000000 := by
    rw [Int.natAbs_mul]
    exact Nat.mul_le_mul (by omega) (by omega)
  obtain ⟨product, hproduct, hproductInt⟩ :=
    exists_tryFrom_of_lt (n := (stop.value.toInt - start.value.toInt) * eased) (by omega) (by omega)
  obtain ⟨value, hvalue, hvalueInt⟩ := exists_tryFrom_of_lt
    (n := start.value.toInt + halfAway curveScale ((stop.value.toInt - start.value.toInt) * eased)) (by omega) (by omega)
  have hrounded : roundedDivKernel product curveScale
      = some (halfAway curveScale ((stop.value.toInt - start.value.toInt) * eased)) := by
    rw [← hproductInt]
    exact roundedDivKernel_exact (by omega)
  refine ⟨value, ?_, hvalueInt⟩
  rw [checkedSub, hdelta, bind_some, hdeltaInt, hproduct, bind_some, hrounded, bind_some, hvalue]

/-- Within the bounds no step of the evaluation of a segment overflows. -/
theorem segmentValue_exact (hstart : start.Bounded) (hstop : stop.Bounded) (hle : start.at_.toInt ≤ at_.toInt)
    (hlt : at_.toInt < stop.at_.toInt) :
    (segmentValue start stop at_).map Int64.toInt = some (exactSegment start stop at_.toInt) := by
  rw [segmentValue, exactSegment]
  by_cases hhold : start.interpolation = .hold
  · rw [if_pos hhold, if_pos hhold]
    rfl
  rw [if_neg hhold, if_neg hhold]
  have hatStart := hstart.at_
  have hatStop := hstop.at_
  rw [maxKeyFrameOffset] at hatStart hatStop
  have hscale : curveScale = 1000000 := rfl
  obtain ⟨span, hspan, hspanInt⟩ := exists_tryFrom_of_lt (n := stop.at_.toInt - start.at_.toInt) (by omega) (by omega)
  obtain ⟨offset, hoffset, hoffsetInt⟩ := exists_tryFrom_of_lt (n := at_.toInt - start.at_.toInt) (by omega) (by omega)
  have hscaled : (Int64.ofIntClamp (offset.toInt * curveScale)).toInt = offset.toInt * curveScale := by
    refine Int64.toInt_ofIntClamp ?_ ?_
    · rw [Int64.toInt_minValue, hscale]
      omega
    · rw [Int64.toInt_maxValue, hscale]
      omega
  have hcut : (Int64.ofIntClamp (offset.toInt * curveScale)).toInt.tdiv span.toInt
      = linearAt start stop at_.toInt := by
    rw [hscaled, hoffsetInt, hspanInt]
    exact Int.tdiv_eq_ediv_of_nonneg (Int.mul_nonneg (by omega) (by decide))
  have hlinear := linearAt_bounds hle hlt
  have heased := easeKernel_bounds hlinear.1 hlinear.2 start.interpolation
  obtain ⟨value, hvalue, hvalueInt⟩ := exists_eased_value hstart.value hstop.value heased.1 heased.2
  rw [← hvalueInt, checkedSub, hspan, checkedSub, hoffset]
  simp [hcut, hvalue]

end Segment

/-! ## Segments of a curve -/

section Curve

variable {keys : List Keyframe} {first last start stop key : Keyframe} {at_ : TimeCode} {frame : ℤ}

/-- The keys come one after the other. -/
def Ordered (keys : List Keyframe) : Prop := keys.IsChain fun key next => key.at_ < next.at_

/-- Two keys of which the second follows the first. -/
def Segment (keys : List Keyframe) (start stop : Keyframe) : Prop := [start, stop] <:+: keys

theorem Ordered.pairwise (h : Ordered keys) : keys.Pairwise fun key next => key.at_ < next.at_ := by
  have : IsTrans Keyframe fun key next => key.at_ < next.at_ := ⟨fun _ _ _ hab hbc => Int64.lt_trans hab hbc⟩
  exact isChain_iff_pairwise.mp h

theorem Segment.lt (h : Ordered keys) (hsegment : Segment keys start stop) : start.at_ < stop.at_ :=
  rel_of_pairwise_cons (h.pairwise.sublist hsegment.sublist) (mem_singleton_self stop)

theorem Segment.mem (h : Segment keys start stop) : start ∈ keys ∧ stop ∈ keys :=
  ⟨h.subset mem_cons_self, h.subset (mem_cons_of_mem _ (mem_singleton_self stop))⟩

section

variable (h : Ordered keys) (hsegment : Segment keys start stop)

include h hsegment

/-- What holds of the keys from the start of a segment on holds of all of them, if an earlier key before a key changes nothing. -/
theorem Ordered.segment_rec {P : List Keyframe → Prop} (here : ∀ rest, P (start :: stop :: rest))
    (later : ∀ key next rest, next.at_ ≤ start.at_ → P (next :: rest) → P (key :: next :: rest)) : P keys := by
  induction keys with
  | nil => exact absurd hsegment (by simp [Segment])
  | cons key keys ih =>
    have hpairs := h.pairwise
    rw [pairwise_cons] at hpairs
    rcases infix_cons_iff.mp hsegment with hprefix | hinfix
    · obtain ⟨rfl, hrest⟩ := cons_prefix_cons.mp hprefix
      obtain ⟨rest, rfl⟩ := hrest
      exact here rest
    · cases keys with
      | nil => exact absurd hinfix (by simp)
      | cons next keys =>
        -- the first two keys are not after the start
        have hnext : next.at_ ≤ start.at_ := by
          rcases mem_cons.mp (Segment.mem hinfix).1 with rfl | hmem
          · exact Int64.le_refl _
          · exact Int64.le_of_lt ((pairwise_cons.mp hpairs.2).1 start hmem)
        exact later key next keys hnext (ih (IsChain.tail h) hinfix)

/-- The scan finds the segment of the frame. -/
theorem exactScan_segment (hle : start.at_.toInt ≤ frame)
    (hlt : frame < stop.at_.toInt) : exactScan frame keys = some (exactSegment start stop frame) := by
  refine Ordered.segment_rec (P := fun keys => exactScan frame keys = some (exactSegment start stop frame)) h hsegment
    (fun rest => ?_) fun key next rest hnext ih => ?_
  · rw [exactScan, if_pos ⟨hle, hlt⟩]
  · rw [Int64.le_iff_toInt_le] at hnext
    rw [exactScan, if_neg (by omega), ih]

/-- The keys after the start of a segment are not before its end. -/
theorem Segment.stop_le (hkey : key ∈ keys) (hlt : start.at_ < key.at_) : stop.at_ ≤ key.at_ := by
  obtain ⟨before, rest, rfl⟩ := hsegment
  obtain ⟨hfirst, -, hrest⟩ := pairwise_append.mp h.pairwise
  obtain ⟨-, -, hbefore⟩ := pairwise_append.mp hfirst
  rcases mem_append.mp hkey with hkey | hkey
  · rcases mem_append.mp hkey with hkey | hkey
    · have hless := hbefore key hkey start mem_cons_self
      exact absurd (Int64.lt_trans hlt hless) Int64.lt_irrefl
    · rcases mem_pair.mp hkey with rfl | rfl
      · exact absurd hlt Int64.lt_irrefl
      · exact Int64.le_refl _
  · exact Int64.le_of_lt (hrest stop (by simp) key hkey)

end

/-- A key is the last one, or the start of a segment. -/
theorem exists_segment (hkey : key ∈ keys) : keys.getLast? = some key ∨ ∃ stop, Segment keys key stop := by
  induction keys with
  | nil => cases hkey
  | cons other keys ih =>
    rcases mem_cons.mp hkey with rfl | hkey
    · cases keys with
      | nil => exact .inl rfl
      | cons next keys => exact .inr ⟨next, [], keys, rfl⟩
    · rcases ih hkey with hlast | ⟨stop, hsegment⟩
      · exact .inl (by rw [getLast?_cons, hlast]; rfl)
      · exact .inr ⟨stop, infix_cons hsegment⟩

theorem head_le_key (h : Ordered keys) (hfirst : keys.head? = some first) (hkey : key ∈ keys) :
    first = key ∨ first.at_ < key.at_ := by
  cases keys with
  | nil => cases hkey
  | cons other keys =>
    obtain rfl := Option.some.inj hfirst
    rcases mem_cons.mp hkey with rfl | hkey
    · exact .inl rfl
    · exact .inr ((pairwise_cons.mp h.pairwise).1 key hkey)

theorem key_le_last (h : Ordered keys) (hlast : keys.getLast? = some last) (hkey : key ∈ keys) :
    key = last ∨ key.at_ < last.at_ := by
  obtain ⟨rest, rfl⟩ := getLast?_eq_some_iff.mp hlast
  rcases mem_append.mp hkey with hkey | hkey
  · exact .inr ((pairwise_append.mp h.pairwise).2.2 key hkey last (mem_singleton_self last))
  · exact .inl (mem_singleton.mp hkey)

/-- In a segment the formula is that of the segment. -/
theorem exactAtKeys_segment (h : Ordered keys) (hsegment : Segment keys start stop) (hle : start.at_.toInt ≤ frame)
    (hlt : frame < stop.at_.toInt) : exactAtKeys keys frame = some (exactSegment start stop frame) := by
  obtain ⟨hstart, hstop⟩ := hsegment.mem
  rw [exactAtKeys]
  cases hfirst : keys.head? with
  | none =>
    rw [head?_eq_none_iff.mp hfirst] at hstart
    cases hstart
  | some first =>
    cases hlast : keys.getLast? with
    | none =>
      rw [getLast?_eq_none_iff.mp hlast] at hstart
      cases hstart
    | some last =>
      dsimp only
      have hafter : ¬ last.at_.toInt ≤ frame := by
        rcases key_le_last h hlast hstop with rfl | hbefore
        · omega
        · rw [Int64.lt_iff_toInt_lt] at hbefore
          omega
      by_cases hbefore : frame ≤ first.at_.toInt
      · rw [if_pos hbefore]
        rcases head_le_key h hfirst hstart with rfl | hless
        · obtain rfl : frame = first.at_.toInt := by omega
          rw [exactSegment_start]
        · rw [Int64.lt_iff_toInt_lt] at hless
          omega
      · rw [if_neg hbefore, if_neg hafter]
        exact exactScan_segment h hsegment hle hlt

/-- Within the bounds the scan is exact. -/
theorem scanKeys_exact (hordered : Ordered keys) (hbounded : ∀ key ∈ keys, key.Bounded) (at_ : TimeCode) :
    (scanKeys at_ keys).map Int64.toInt = exactScan at_.toInt keys := by
  induction keys with
  | nil => rfl
  | cons start keys ih =>
    cases keys with
    | nil => rfl
    | cons stop keys =>
      simp only [scanKeys, exactScan, Int64.le_iff_toInt_le, Int64.lt_iff_toInt_lt]
      by_cases hin : start.at_.toInt ≤ at_.toInt ∧ at_.toInt < stop.at_.toInt
      · rw [if_pos hin, if_pos hin]
        have hstart := hbounded start mem_cons_self
        have hstop := hbounded stop (mem_cons_of_mem _ mem_cons_self)
        exact segmentValue_exact hstart hstop hin.1 hin.2
      · rw [if_neg hin, if_neg hin]
        exact ih hordered.tail fun key hkey => hbounded key (mem_cons_of_mem _ hkey)

/-- Within the bounds the evaluation is exact. -/
theorem valueAtKeys_exact (hordered : Ordered keys) (hbounded : ∀ key ∈ keys, key.Bounded) (at_ : TimeCode) :
    (valueAtKeys keys at_).map Int64.toInt = exactAtKeys keys at_.toInt := by
  rw [valueAtKeys, exactAtKeys]
  cases keys.head? with
  | none => rfl
  | some first =>
    cases keys.getLast? with
    | none => rfl
    | some last =>
      simp only [← scanKeys_exact hordered hbounded, Int64.le_iff_toInt_le]
      split
      · rfl
      · split
        · rfl
        · rfl

theorem valueAtKeys_first (hfirst : keys.head? = some first) (hle : at_ ≤ first.at_) :
    valueAtKeys keys at_ = some first.value := by
  rw [valueAtKeys, hfirst]
  cases hlast : keys.getLast? with
  | none =>
    rw [getLast?_eq_none_iff.mp hlast] at hfirst
    cases hfirst
  | some last => exact if_pos hle

theorem valueAtKeys_last (hordered : Ordered keys) (hlast : keys.getLast? = some last) (hle : last.at_ ≤ at_) :
    valueAtKeys keys at_ = some last.value := by
  rw [valueAtKeys, hlast]
  cases hfirst : keys.head? with
  | none =>
    rw [head?_eq_none_iff.mp hfirst] at hlast
    cases hlast
  | some first =>
    dsimp only
    by_cases hbefore : at_ ≤ first.at_
    · rw [if_pos hbefore]
      rcases key_le_last hordered hlast (mem_of_mem_head? hfirst) with rfl | hlt
      · rfl
      · exact absurd (Int64.lt_of_lt_of_le hlt (Int64.le_trans hle hbefore)) Int64.lt_irrefl
    · rw [if_neg hbefore, if_pos hle]

/-- A frame between the end keys is in a segment. -/
theorem exists_segment_at (hfirst : keys.head? = some first) (hlast : keys.getLast? = some last)
    (hle : first.at_ ≤ at_) (hlt : at_ < last.at_) :
    ∃ start stop, Segment keys start stop ∧ start.at_ ≤ at_ ∧ at_ < stop.at_ := by
  induction keys generalizing first with
  | nil => cases hfirst
  | cons key keys ih =>
    obtain rfl := Option.some.inj hfirst
    cases keys with
    | nil =>
      obtain rfl := Option.some.inj hlast
      exact absurd (Int64.lt_of_le_of_lt hle hlt) Int64.lt_irrefl
    | cons next keys =>
      by_cases hin : at_ < next.at_
      · exact ⟨key, next, ⟨[], keys, rfl⟩, hle, hin⟩
      · obtain ⟨start, stop, hsegment, hle, hlt⟩ := ih rfl hlast (Int64.not_lt.mp hin)
        exact ⟨start, stop, infix_cons hsegment, hle, hlt⟩

end Curve

/-! ## Values in one direction -/

section Direction

variable {keys : List Keyframe} {start stop : Keyframe} {frame frame' : ℤ}

/-- How high a smooth step of the given length and height is at an offset. -/
def smoothHeight (span height offset : ℤ) : ℤ :=
  let t := offset * 1000000 / span
  (height * (t * t / 1000000 * (3000000 - 2 * t) / 1000000) + 500000) / 1000000

/-- A smooth step of the given length and height goes down on its way, between two frames next to each other. -/
def Dips (span height : ℤ) : Prop :=
  ∃ offset, 0 ≤ offset ∧ offset + 1 < span ∧ smoothHeight span height (offset + 1) < smoothHeight span height offset

/-- The first value goes towards the second one between the frames. -/
def Towards (first second value value' : ℤ) : Prop :=
  (first ≤ second → value ≤ value') ∧ (second ≤ first → value' ≤ value)

theorem Towards.trans {first second value value' value'' : ℤ} (h : Towards first second value value')
    (h' : Towards first second value' value'') : Towards first second value value'' :=
  ⟨fun hle => (h.1 hle).trans (h'.1 hle), fun hle => (h'.2 hle).trans (h.2 hle)⟩

theorem towards_of_eased (first delta : ℤ) {eased eased' : ℤ} (h : eased ≤ eased') :
    Towards first (first + delta) (first + halfAway curveScale (delta * eased))
      (first + halfAway curveScale (delta * eased')) := by
  have hscale : 0 < curveScale := by decide
  constructor
  · intro hle
    have := halfAway_mono hscale (Int.mul_le_mul_of_nonneg_left h (show 0 ≤ delta by omega))
    omega
  · intro hle
    have := halfAway_mono hscale (Int.mul_le_mul_of_nonpos_left (show delta ≤ 0 by omega) h)
    omega

/-- In a segment of any other kind the values go in one direction. -/
theorem exactSegment_towards (hkind : start.interpolation ≠ .easeInOut) (hle : start.at_.toInt ≤ frame)
    (hframes : frame ≤ frame') (hlt : frame' < stop.at_.toInt) :
    Towards start.value.toInt stop.value.toInt (exactSegment start stop frame) (exactSegment start stop frame') := by
  rw [exactSegment, exactSegment]
  split
  · exact ⟨fun _ => Int.le_refl _, fun _ => Int.le_refl _⟩
  · have hlinear := linearAt_bounds hle (hframes.trans_lt hlt)
    have hlinear' := linearAt_bounds (hle.trans hframes) hlt
    have heased := easeKernel_mono hkind hlinear.1 (linearAt_mono hle hframes hlt) hlinear'.2
    have htowards := towards_of_eased start.value.toInt (stop.value.toInt - start.value.toInt) heased
    rwa [add_sub_cancel] at htowards

/-- The value of a smooth step is as high as the step is, up or down. -/
theorem exactSegment_smooth (stop : Keyframe) (frame : ℤ) (hkind : start.interpolation = .easeInOut) (hle : start.at_.toInt ≤ frame)
    (hlt : frame < stop.at_.toInt) :
    let height := smoothHeight (stop.at_.toInt - start.at_.toInt) (stop.value.toInt - start.value.toInt).natAbs
      (frame - start.at_.toInt)
    exactSegment start stop frame
      = if start.value.toInt ≤ stop.value.toInt then start.value.toInt + height else start.value.toInt - height := by
  have hlinear := linearAt_bounds hle hlt
  have heased := (easeKernel_bounds hlinear.1 hlinear.2 .easeInOut).1
  have hnonneg : 0 ≤ (stop.value.toInt - start.value.toInt).natAbs * easeKernel (linearAt start stop frame) .easeInOut :=
    Int.mul_nonneg (Int.natCast_nonneg _) heased
  have hheight : smoothHeight (stop.at_.toInt - start.at_.toInt) (stop.value.toInt - start.value.toInt).natAbs
      (frame - start.at_.toInt) = halfAway curveScale
        ((stop.value.toInt - start.value.toInt).natAbs * easeKernel (linearAt start stop frame) .easeInOut) := by
    rw [halfAway_of_nonneg hnonneg, easeKernel_eq hlinear.1 hlinear.2]
    rfl
  rw [hheight, exactSegment, if_neg (by rw [hkind]; decide), hkind]
  split
  · rw [Int.natAbs_of_nonneg (by omega)]
  · have hneg : stop.value.toInt - start.value.toInt = -((stop.value.toInt - start.value.toInt).natAbs : ℤ) := by
      omega
    rw [hneg, Int.natAbs_neg, Int.natAbs_natCast, Int.neg_mul, halfAway_neg (by decide)]
    omega

/-- A smooth step that does not dip goes in one direction. -/
theorem smooth_towards_iff (hkind : start.interpolation = .easeInOut) :
    (∀ frame frame', start.at_.toInt ≤ frame → frame ≤ frame' → frame' < stop.at_.toInt →
      Towards start.value.toInt stop.value.toInt (exactSegment start stop frame) (exactSegment start stop frame')) ↔
    ¬ Dips (stop.at_.toInt - start.at_.toInt) (stop.value.toInt - start.value.toInt).natAbs := by
  constructor
  · rintro htowards ⟨offset, hoffset, hlt, hdip⟩
    have hpair := htowards (start.at_.toInt + offset) (start.at_.toInt + offset + 1) (by omega) (by omega) (by omega)
    have hvalue := exactSegment_smooth stop (start.at_.toInt + offset) hkind (by omega) (by omega)
    have hvalue' := exactSegment_smooth stop (start.at_.toInt + offset + 1) hkind (by omega) (by omega)
    have hfirst : start.at_.toInt + offset - start.at_.toInt = offset := by omega
    have hsecond : start.at_.toInt + offset + 1 - start.at_.toInt = offset + 1 := by omega
    rw [hvalue, hvalue', hfirst, hsecond] at hpair
    by_cases hup : start.value.toInt ≤ stop.value.toInt
    · have := hpair.1 hup
      omega
    · have := hpair.2 (by omega)
      omega
  · intro hdips frame frame' hle hframes
    -- from one frame to the next, as long as the segment goes on
    induction frame', hframes using Int.leInduction with
    | base => exact fun _ => ⟨fun _ => Int.le_refl _, fun _ => Int.le_refl _⟩
    | succ frame' hframes ih =>
      intro hlt
      refine (ih (by omega)).trans ?_
      have hheight : smoothHeight (stop.at_.toInt - start.at_.toInt) (stop.value.toInt - start.value.toInt).natAbs
          (frame' - start.at_.toInt) ≤ smoothHeight (stop.at_.toInt - start.at_.toInt)
            (stop.value.toInt - start.value.toInt).natAbs (frame' - start.at_.toInt + 1) := by
        by_contra hdip
        exact hdips ⟨frame' - start.at_.toInt, by omega, by omega, Int.not_le.mp hdip⟩
      have hnext : frame' + 1 - start.at_.toInt = frame' - start.at_.toInt + 1 := by omega
      have hvalue := exactSegment_smooth stop frame' hkind (by omega) (by omega)
      have hvalue' := exactSegment_smooth stop (frame' + 1) hkind (by omega) (by omega)
      rw [hvalue, hvalue', hnext]
      constructor
      · intro hup
        omega
      · intro hdown
        by_cases hup : start.value.toInt ≤ stop.value.toInt
        · -- both keys have the same value, and the step has no height
          have hflat : (stop.value.toInt - start.value.toInt).natAbs = 0 := by omega
          rw [hflat]
          simp [smoothHeight]
        · omega

end Direction

/-! ## Evaluation of a valid curve -/

/-- What the evaluation of the keys is to give. -/
structure Evaluates (keys : List Keyframe) : Prop where
  exact : ∀ at_ : TimeCode, ∃ value, valueAtKeys keys at_ = some value ∧ exactAtKeys keys at_.toInt = some value.toInt
  atKey : ∀ key ∈ keys, valueAtKeys keys key.at_ = some key.value
  before : ∀ first, keys.head? = some first → ∀ at_ ≤ first.at_, valueAtKeys keys at_ = some first.value
  after : ∀ last, keys.getLast? = some last → ∀ at_, last.at_ ≤ at_ → valueAtKeys keys at_ = some last.value
  between : ∀ start stop, Segment keys start stop → ∀ at_ value, start.at_ ≤ at_ → at_ < stop.at_ →
    valueAtKeys keys at_ = some value →
      min start.value.toInt stop.value.toInt ≤ value.toInt ∧ value.toInt ≤ max start.value.toInt stop.value.toInt
  monotone : ∀ start stop, Segment keys start stop → ∀ at_ at' value value', start.at_ ≤ at_ → at_ ≤ at' →
    at' < stop.at_ → valueAtKeys keys at_ = some value → valueAtKeys keys at' = some value' →
      Towards start.value.toInt stop.value.toInt value.toInt value'.toInt

theorem AutomationCurve.validateOrdered_ok {curve : AutomationCurve} (h : curve.validateOrdered = .ok ()) :
    curve.keyframes ≠ [] ∧ Ordered curve.keyframes := by
  rw [validateOrdered, unless_eq_ok, unless_eq_ok, unless_eq_ok, not_not] at h
  exact ⟨h.1, h.2.2.1⟩

/-- A ramp of one kind between two keys. -/
def ramp (interpolation : KeyframeInterpolation) (length value : Int64) : AutomationCurve where
  keyframes :=
    [{ at_ := 0, value := 0, interpolation, tangentIn := 0, tangentOut := 0 },
     { at_ := length, value, interpolation, tangentIn := 0, tangentOut := 0 }]

end Kinewright.Model
