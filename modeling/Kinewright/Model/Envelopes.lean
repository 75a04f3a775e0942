import Kinewright.Model.ClipData

/-!
# Envelopes that survive an edit

`automation.rs`: an envelope moves with the origin of its clip, and is cut at the edges of the clip. At each of its keys
the new envelope has the value of the old one, so it follows the old one where that is held, and is off by the roundings
where it is linear.
-/

namespace Kinewright.Model

open Fallible Rounding Int64 List AutomationCurve

variable {curve : AutomationCurve} {keys : List Keyframe} {key start stop start' stop' first last : Keyframe}
  {delta duration at_ source : TimeCode}

/-! ## Interpolations -/

section

variable (hvalid : ValidKeys curve.keyframes)

include hvalid

/-- The interpolation at a frame is that of the last key up to it. -/
theorem segmentInterpolationAt_eq (hkey : key ∈ curve.keyframes)
    (hle : key.at_ ≤ source) (hlast : ∀ other ∈ curve.keyframes, key.at_ < other.at_ → source < other.at_) :
    curve.segmentInterpolationAt source = key.interpolation := by
  have hpairs := hvalid.ordered.pairwise
  rw [segmentInterpolationAt]
  cases hkeys : curve.keyframes with
  | nil => exact absurd hkeys hvalid.ne_nil
  | cons first keys =>
    dsimp only
    have hfirst : curve.keyframes.head? = some first := by rw [hkeys]; rfl
    by_cases hbefore : source ≤ first.at_
    · rw [if_pos hbefore]
      rcases head_le_key hvalid.ordered hfirst hkey with rfl | hlt
      · rfl
      · exact absurd (Int64.lt_of_lt_of_le hlt (Int64.le_trans hle hbefore)) Int64.lt_irrefl
    · rw [if_neg hbefore, ← hkeys]
      cases hfind : curve.keyframes.reverse.find? fun key => key.at_ ≤ source with
      | none =>
        have hmiss := find?_eq_none.mp hfind key (mem_reverse.mpr hkey)
        exact absurd (decide_eq_true hle) hmiss
      | some found =>
        obtain ⟨hfound, before, rest, hreverse, hskipped⟩ := find?_eq_some_iff_append.mp hfind
        have hsame : found = key := by
          have hmem : key ∈ before ++ found :: rest := hreverse ▸ mem_reverse.mpr hkey
          have hbackward := pairwise_reverse.mpr hpairs
          rw [hreverse, pairwise_append] at hbackward
          rcases mem_append.mp hmem with hmem | hmem
          · have hskip := hskipped key hmem
            rw [decide_eq_true hle] at hskip
            cases hskip
          · rcases mem_cons.mp hmem with rfl | hmem
            · rfl
            · have hlt := (pairwise_cons.mp hbackward.2.1).1 key hmem
              have hin : found ∈ curve.keyframes := by
                rw [← mem_reverse, hreverse]
                simp
              exact absurd (Int64.lt_of_le_of_lt (of_decide_eq_true hfound) (hlast found hin hlt)) Int64.lt_irrefl
        rw [hsame]
        rfl

/-- The interpolation at a frame of a segment is that of the segment. -/
theorem segmentInterpolationAt_segment (hsegment : Segment curve.keyframes start stop)
    (hle : start.at_ ≤ source) (hlt : source < stop.at_) : curve.segmentInterpolationAt source = start.interpolation :=
  segmentInterpolationAt_eq hvalid hsegment.mem.1 hle fun _ hother hafter =>
    Int64.lt_of_lt_of_le hlt (hsegment.stop_le hvalid.ordered hother hafter)

end

/-! ## Keys that sample a curve -/

/-- The key has the value and the interpolation that the curve has at its frame, moved by the distance. -/
structure Sampled (curve : AutomationCurve) (delta duration : TimeCode) (key : Keyframe) : Prop where
  nonneg : 0 ≤ key.at_.toInt
  inside : key.at_.toInt < duration.toInt
  value : ∀ source : TimeCode, source.toInt = key.at_.toInt + delta.toInt → curve.valueAt source = some key.value
  interpolation : ∀ source : TimeCode, source.toInt = key.at_.toInt + delta.toInt →
    key.interpolation = curve.segmentInterpolationAt source

/-- Some key is at the frame. -/
def KeyedAt (keys : List Keyframe) (at_ : ℤ) : Prop := ∃ key ∈ keys, key.at_.toInt = at_

theorem keyedAt_insertKey (key : Keyframe) (keys : List Keyframe) : KeyedAt (insertKey key keys) key.at_.toInt := by
  induction keys with
  | nil => exact ⟨key, mem_singleton_self key, rfl⟩
  | cons next keys ih =>
    rw [insertKey]
    split
    · exact ⟨key, mem_cons_self, rfl⟩
    · split
      · exact ⟨key, mem_cons_self, rfl⟩
      · obtain ⟨found, hfound, hat⟩ := ih
        exact ⟨found, mem_cons_of_mem _ hfound, hat⟩

theorem KeyedAt.insertKey {at_ : ℤ} (h : KeyedAt keys at_) (key : Keyframe) : KeyedAt (Model.insertKey key keys) at_ := by
  obtain ⟨found, hfound, hat⟩ := h
  induction keys with
  | nil => cases hfound
  | cons next keys ih =>
    rw [Model.insertKey]
    split
    · exact ⟨found, mem_cons_of_mem _ hfound, hat⟩
    · split
      · rename_i hsame
        rcases mem_cons.mp hfound with rfl | hfound
        · exact ⟨key, mem_cons_self, hsame ▸ hat⟩
        · exact ⟨found, mem_cons_of_mem _ hfound, hat⟩
      · rcases mem_cons.mp hfound with rfl | hfound
        · exact ⟨found, mem_cons_self, hat⟩
        · obtain ⟨other, hother, hat⟩ := ih hfound
          exact ⟨other, mem_cons_of_mem _ hother, hat⟩

/-- The keys of a curve that moves by the distance and is cut to the length: each samples the old curve, and there is one
for each old key, at an edge if the old key is beyond it. -/
structure Samples (curve : AutomationCurve) (delta duration : TimeCode) (keys : List Keyframe) : Prop where
  ordered : Ordered keys
  sampled : ∀ key ∈ keys, Sampled curve delta duration key
  inside : ∀ key ∈ curve.keyframes, delta.toInt ≤ key.at_.toInt → key.at_.toInt < delta.toInt + duration.toInt →
    KeyedAt keys (key.at_.toInt - delta.toInt)
  left : ∀ key ∈ curve.keyframes, key.at_.toInt < delta.toInt → KeyedAt keys 0
  right : ∀ key ∈ curve.keyframes, delta.toInt + duration.toInt ≤ key.at_.toInt → KeyedAt keys (duration.toInt - 1)

/-- What is assumed of the curve and of the edit. -/
structure Rebases (curve : AutomationCurve) (delta duration : TimeCode) : Prop where
  valid : ValidKeys curve.keyframes
  range : ∀ key ∈ curve.keyframes, -600 ≤ key.value ∧ key.value ≤ 120
  frames : ∀ key ∈ curve.keyframes, key.at_.toInt ≤ maxKeyFrameOffset
  delta_le : delta.toInt.natAbs ≤ maxKeyFrameOffset
  duration_pos : 1 ≤ duration.toInt
  duration_le : duration.toInt ≤ maxKeyFrameOffset

namespace Rebases

variable (h : Rebases curve delta duration)

include h

theorem tame : Tame curve.keyframes := tame_of_range h.range

theorem bounds (hkey : key ∈ curve.keyframes) : 0 ≤ key.at_.toInt ∧ key.at_.toInt ≤ 2 ^ 40 ∧
    -(2 ^ 40) ≤ delta.toInt ∧ delta.toInt ≤ 2 ^ 40 ∧ 1 ≤ duration.toInt ∧ duration.toInt ≤ 2 ^ 40 := by
  have hnonneg := h.valid.nonneg key hkey
  have hle := h.frames key hkey
  have hdelta := h.delta_le
  have hduration := h.duration_le
  rw [maxKeyFrameOffset] at hle hdelta hduration
  exact ⟨hnonneg, by omega, by omega, by omega, h.duration_pos, by omega⟩

/-- A boundary key samples the curve. -/
theorem sampled_boundaryKey (hnonneg : 0 ≤ at_.toInt) (hlt : at_.toInt < duration.toInt)
    (hsource : source.toInt = at_.toInt + delta.toInt) : Sampled curve delta duration (boundaryKey curve at_ source) := by
  have hsame {other : TimeCode} (hother : other.toInt = at_.toInt + delta.toInt) : other = source :=
    toInt_inj.mp (hother.trans hsource.symm)
  refine ⟨hnonneg, hlt, fun other hother => ?_, fun other hother => ?_⟩
  · rw [hsame hother]
    exact boundaryKey_value h.valid h.tame at_ source
  · rw [hsame hother]
    rfl

/-- The keys that stay samples the curve, and they are there. -/
theorem sampled_keysInside (hkey : key ∈ keysInside curve delta duration) : Sampled curve delta duration key := by
  obtain ⟨old, hold, rfl, hnonneg, hlt, hat⟩ := mem_keysInside hkey
  have hsame {source : TimeCode} (hsource : source.toInt = (saturatingSub old.at_ delta).toInt + delta.toInt) :
      source = old.at_ := by
    refine toInt_inj.mp ?_
    have hat : (saturatingSub old.at_ delta).toInt = old.at_.toInt - delta.toInt := hat
    omega
  refine ⟨hnonneg, lt_iff_toInt_lt.mp hlt, fun source hsource => ?_, fun source hsource => ?_⟩
  · rw [hsame hsource]
    exact valueAtKeys_key h.valid h.tame hold
  · rw [hsame hsource]
    exact (segmentInterpolationAt_eq h.valid hold (Int64.le_refl _) fun _ _ hafter => hafter).symm

omit h in
theorem keyedAt_keysInside (hkey : key ∈ curve.keyframes) (hle : delta.toInt ≤ key.at_.toInt)
    (hlt : key.at_.toInt < delta.toInt + duration.toInt) :
    KeyedAt (keysInside curve delta duration) (key.at_.toInt - delta.toInt) := by
  have hat : (saturatingSub key.at_ delta).toInt = key.at_.toInt - delta.toInt :=
    saturatingSub_eq 0 duration (by change (0 : ℤ) ≤ _; omega) (by omega)
  refine ⟨{ key with at_ := saturatingSub key.at_ delta }, mem_filter.mpr ⟨mem_map_of_mem hkey, ?_⟩, hat⟩
  rw [decide_eq_true_eq, lt_iff_toInt_lt]
  exact ⟨by change 0 ≤ (saturatingSub key.at_ delta).toInt; omega, by change (saturatingSub key.at_ delta).toInt < _; omega⟩

end Rebases

/-! ## The keys of the new envelope -/

/-- A key is inserted at an edge where a key is dropped. -/
def insertIf (dropped : Prop) [Decidable dropped] (key : Keyframe) (keys : List Keyframe) : List Keyframe :=
  if dropped then insertKey key keys else keys

section Insert

variable {dropped : Prop} [Decidable dropped]

theorem ordered_insertIf (h : Ordered keys) (key : Keyframe) : Ordered (insertIf dropped key keys) := by
  rw [insertIf]
  split
  · exact ordered_insertKey h key
  · exact h

theorem sampled_insertIf (hkey : Sampled curve delta duration key) (h : ∀ key ∈ keys, Sampled curve delta duration key) :
    ∀ other ∈ insertIf dropped key keys, Sampled curve delta duration other := by
  intro other hother
  rw [insertIf] at hother
  split at hother
  · rcases mem_insertKey hother with rfl | hother
    · exact hkey
    · exact h other hother
  · exact h other hother

theorem KeyedAt.insertIf {at_ : ℤ} (h : KeyedAt keys at_) (key : Keyframe) : KeyedAt (Model.insertIf dropped key keys) at_ := by
  rw [Model.insertIf]
  split
  · exact h.insertKey key
  · exact h

theorem keyedAt_insertIf (hdropped : dropped) (key : Keyframe) (keys : List Keyframe) :
    KeyedAt (insertIf dropped key keys) key.at_.toInt := by
  rw [insertIf, if_pos hdropped]
  exact keyedAt_insertKey key keys

end Insert

theorem Rebases.samples (h : Rebases curve delta duration) :
    Samples curve delta duration (rebaseClipCurve curve delta duration).keyframes := by
  have hduration := h.duration_pos
  have hduration' := h.duration_le
  have hdelta := h.delta_le
  rw [maxKeyFrameOffset] at hduration' hdelta
  have hlast : (saturatingSub duration 1).toInt = duration.toInt - 1 :=
    saturatingSub_eq 0 duration (Int.le_sub_one_of_lt hduration) (Int.sub_le_self _ (by decide))
  have hsource : (saturatingSub (saturatingAdd delta duration) 1).toInt = (saturatingSub duration 1).toInt + delta.toInt := by
    have hsum : (saturatingAdd delta duration).toInt = delta.toInt + duration.toInt := by
      refine toInt_ofIntClamp ?_ ?_
      · rw [toInt_minValue]
        omega
      · rw [toInt_maxValue]
        omega
    have hone : (1 : Int64).toInt = 1 := rfl
    rw [saturatingSub, toInt_ofIntClamp (by rw [toInt_minValue]; omega)
      (by rw [toInt_maxValue]; omega)]
    omega
  have hfirst : Sampled curve delta duration (boundaryKey curve 0 delta) :=
    h.sampled_boundaryKey (Int.le_refl 0) hduration (Int.zero_add _).symm
  have hend : Sampled curve delta duration
      (boundaryKey curve (saturatingSub duration 1) (saturatingSub (saturatingAdd delta duration) 1)) :=
    h.sampled_boundaryKey (by omega) (by omega) hsource
  obtain ⟨keys, hkeys, heq⟩ : ∃ keys, Samples curve delta duration keys ∧ rebaseClipCurve curve delta duration
      = if keys = [] then { keyframes := [boundaryKey curve 0 delta] } else { keyframes := keys } := by
    refine ⟨_, ⟨ordered_insertIf (ordered_insertIf (ordered_keysInside h.valid.ordered) _) _,
      sampled_insertIf hend (sampled_insertIf hfirst fun key hkey => h.sampled_keysInside hkey),
      fun key hkey hle hlt => ((keyedAt_keysInside hkey hle hlt).insertIf _).insertIf _,
      fun key hkey hlt => (keyedAt_insertIf ?_ _ _).insertIf _, fun key hkey hle => ?_⟩,
      rebaseClipCurve_eq h.valid.ordered h.valid.ne_nil hduration⟩
    · exact any_eq_true.mpr ⟨key, hkey, decide_eq_true (lt_iff_toInt_lt.mpr hlt)⟩
    · rw [← hlast]
      exact keyedAt_insertIf (any_eq_true.mpr ⟨key, hkey, decide_eq_true (by omega)⟩) _ _
  rw [heq]
  have hne : keys ≠ [] := by
    obtain ⟨key, hkey⟩ := exists_mem_of_ne_nil _ h.valid.ne_nil
    have hkeyed : ∃ at_, KeyedAt keys at_ := by
      rcases lt_or_ge key.at_.toInt delta.toInt with hlt | hle
      · exact ⟨_, hkeys.left key hkey hlt⟩
      · rcases lt_or_ge key.at_.toInt (delta.toInt + duration.toInt) with hlt | hge
        · exact ⟨_, hkeys.inside key hkey hle hlt⟩
        · exact ⟨_, hkeys.right key hkey hge⟩
    obtain ⟨_, found, hfound, -⟩ := hkeyed
    exact ne_nil_of_mem hfound
  rw [if_neg hne]
  exact hkeys

/-! ## Linear segments -/

/-- The line through two keys, of the span between them. -/
def line (start stop : Keyframe) (frame : ℤ) : ℤ :=
  (stop.at_.toInt - start.at_.toInt) * start.value.toInt
    + (stop.value.toInt - start.value.toInt) * (frame - start.at_.toInt)

/-- The value is on the line, but for the cut of the offset and for the rounding. -/
structure NearLine (start stop : Keyframe) (frame value : ℤ) : Prop where
  lower : 2000000 * line start stop frame - 1001440 * (stop.at_.toInt - start.at_.toInt)
    ≤ 2000000 * ((stop.at_.toInt - start.at_.toInt) * value)
  upper : 2000000 * ((stop.at_.toInt - start.at_.toInt) * value)
    ≤ 2000000 * line start stop frame + 1001440 * (stop.at_.toInt - start.at_.toInt)

/-- The values of two keys of an envelope are that far apart at most. -/
def Gentle (start stop : Keyframe) : Prop := (stop.value.toInt - start.value.toInt).natAbs ≤ 720

theorem nearLine_stop (hlt : start.at_.toInt < stop.at_.toInt) : NearLine start stop stop.at_.toInt stop.value.toInt := by
  have heq : line start stop stop.at_.toInt = (stop.at_.toInt - start.at_.toInt) * stop.value.toInt := by
    rw [line]
    ring
  constructor
  · omega
  · omega

theorem nearLine_exact {frame : ℤ} (hlinear : start.interpolation = .linear) (hgentle : Gentle start stop)
    (hle : start.at_.toInt ≤ frame) (hlt : frame < stop.at_.toInt) :
    NearLine start stop frame (exactSegment start stop frame) := by
  have hspan : 0 < stop.at_.toInt - start.at_.toInt := by omega
  have hkind : start.interpolation ≠ .hold := by
    rw [hlinear]
    decide
  have hscale : curveScale = 1000000 := rfl
  rw [Gentle] at hgentle
  rw [exactSegment, if_neg hkind, hlinear, easeKernel]
  -- the offset is cut to a part of the scale
  have hcut : (stop.at_.toInt - start.at_.toInt) * linearAt start stop frame ≤ (frame - start.at_.toInt) * 1000000 :=
    Int.mul_ediv_self_le (by omega)
  have hcut' : (frame - start.at_.toInt) * 1000000
      < (stop.at_.toInt - start.at_.toInt) * linearAt start stop frame + (stop.at_.toInt - start.at_.toInt) :=
    Int.lt_mul_ediv_self_add hspan
  obtain ⟨hlow, hhigh⟩ := halfAway_error (d := curveScale) (by decide)
    ((stop.value.toInt - start.value.toInt) * linearAt start stop frame)
  rw [hscale] at hlow hhigh ⊢
  generalize linearAt start stop frame = linear at hcut hcut' hlow hhigh ⊢
  have hscaledLow := mul_le_mul_of_nonneg_left hlow hspan.le
  have hscaledHigh := mul_le_mul_of_nonneg_left hhigh hspan.le
  generalize hheight : stop.value.toInt - start.value.toInt = height at hgentle hscaledLow hscaledHigh
  -- what the cut takes from the height is less than the height of one part
  have hgap : 0 ≤ (frame - start.at_.toInt) * 1000000 - (stop.at_.toInt - start.at_.toInt) * linear := by omega
  have hlost := Int.mul_le_mul_of_nonneg_right (show height ≤ 720 by omega) hgap
  have hlost' := Int.mul_le_mul_of_nonneg_right (show -720 ≤ height by omega) hgap
  constructor
  all_goals
    rw [line, hheight]
    linarith

theorem exists_nearLine (hstart : start.Bounded) (hstop : stop.Bounded) (hlinear : start.interpolation = .linear)
    (hgentle : Gentle start stop) (hle : start.at_.toInt ≤ at_.toInt) (hlt : at_.toInt < stop.at_.toInt) :
    ∃ value, segmentValue start stop at_ = some value ∧ NearLine start stop at_.toInt value.toInt := by
  obtain ⟨value, hvalue, hexact⟩ := Option.map_eq_some_iff.mp (segmentValue_exact hstart hstop hle hlt)
  exact ⟨value, hvalue, hexact ▸ nearLine_exact hlinear hgentle hle hlt⟩

/-- Between two values on a line a linear segment is on the line, but for its own cut and rounding. -/
theorem natAbs_sub_le_one {first last frame value value' : ℤ} (hspan : start.at_.toInt < stop.at_.toInt)
    (hfirst : NearLine start stop first start'.value.toInt) (hlast : NearLine start stop last stop'.value.toInt)
    (hmoved : last - first = stop'.at_.toInt - start'.at_.toInt) (hle : first ≤ frame) (hlt : frame < last)
    (hold : NearLine start stop frame value)
    (hnew : NearLine start' stop' (start'.at_.toInt + (frame - first)) value') : (value' - value).natAbs ≤ 1 := by
  obtain ⟨hfirstLow, hfirstHigh⟩ := hfirst
  obtain ⟨hlastLow, hlastHigh⟩ := hlast
  obtain ⟨holdLow, holdHigh⟩ := hold
  obtain ⟨hnewLow, hnewHigh⟩ := hnew
  rw [line] at hfirstLow hfirstHigh hlastLow hlastHigh holdLow holdHigh hnewLow hnewHigh
  rw [← hmoved] at hnewLow hnewHigh
  have hpos : 0 < stop.at_.toInt - start.at_.toInt := by omega
  generalize stop.at_.toInt - start.at_.toInt = span at *
  obtain ⟨offset, rfl⟩ : ∃ offset, frame = first + offset := ⟨frame - first, by omega⟩
  obtain ⟨span', rfl⟩ : ∃ span', last = first + span' := ⟨last - first, by omega⟩
  have hrest : 0 ≤ span' - offset := by omega
  have hoffset : 0 ≤ offset := by omega
  have hspan' : 0 < span' := by omega
  -- the bounds of the end values, weighted by their distance to the frame
  have h₁ := mul_le_mul_of_nonneg_left hfirstLow hrest
  have h₂ := mul_le_mul_of_nonneg_left hfirstHigh hrest
  have h₃ := mul_le_mul_of_nonneg_left hlastLow hoffset
  have h₄ := mul_le_mul_of_nonneg_left hlastHigh hoffset
  have h₅ := mul_le_mul_of_nonneg_left holdLow hspan'.le
  have h₆ := mul_le_mul_of_nonneg_left holdHigh hspan'.le
  have h₇ := mul_le_mul_of_nonneg_left hnewLow hpos.le
  have h₈ := mul_le_mul_of_nonneg_left hnewHigh hpos.le
  have harea : 0 < span * span' := Int.mul_pos hpos hspan'
  have hupper : span * span' * (value' - value) < span * span' * 2 := by linarith
  have hlower : span * span' * (-2) < span * span' * (value' - value) := by linarith
  have := Int.lt_of_mul_lt_mul_left hupper harea.le
  have := Int.lt_of_mul_lt_mul_left hlower harea.le
  omega

/-! ## The values of the new envelope -/

theorem valueAt_before (hvalid : ValidKeys keys) {at' : TimeCode} (h : ∀ key ∈ keys, at_.toInt ≤ key.at_.toInt)
    (h' : ∀ key ∈ keys, at'.toInt ≤ key.at_.toInt) : valueAtKeys keys at_ = valueAtKeys keys at' := by
  obtain ⟨first, last, hfirst, -⟩ := hvalid.ends
  have hmem := mem_of_mem_head? hfirst
  rw [valueAtKeys_first hfirst (le_iff_toInt_le.mpr (h first hmem)),
    valueAtKeys_first hfirst (le_iff_toInt_le.mpr (h' first hmem))]

theorem valueAt_after (hvalid : ValidKeys keys) {at' : TimeCode} (h : ∀ key ∈ keys, key.at_.toInt ≤ at_.toInt)
    (h' : ∀ key ∈ keys, key.at_.toInt ≤ at'.toInt) : valueAtKeys keys at_ = valueAtKeys keys at' := by
  obtain ⟨first, last, -, hlast⟩ := hvalid.ends
  have hmem := mem_of_getLast? hlast
  rw [valueAtKeys_last hvalid.ordered hlast (le_iff_toInt_le.mpr (h last hmem)),
    valueAtKeys_last hvalid.ordered hlast (le_iff_toInt_le.mpr (h' last hmem))]

namespace Samples

variable (hsamples : Samples curve delta duration keys)

include hsamples

/-- No key of the old curve is between two neighbours of the new one. -/
theorem not_between (hsegment : Segment keys start' stop') (hkey : key ∈ curve.keyframes)
    (hafter : start'.at_.toInt + delta.toInt < key.at_.toInt) : stop'.at_.toInt + delta.toInt ≤ key.at_.toInt := by
  by_contra hbefore
  have hstart := (hsamples.sampled start' hsegment.mem.1).nonneg
  have hstop := (hsamples.sampled stop' hsegment.mem.2).inside
  obtain ⟨found, hfound, hat⟩ := hsamples.inside key hkey (by omega) (by omega)
  have hle := hsegment.stop_le hsamples.ordered hfound (lt_iff_toInt_lt.mpr (by omega))
  rw [le_iff_toInt_le] at hle
  omega

/-- Before the first key of the new curve there is none of the old one. -/
theorem first_le (hfirst : keys.head? = some first) (hpos : 0 < first.at_.toInt) (hkey : key ∈ curve.keyframes) :
    first.at_.toInt + delta.toInt ≤ key.at_.toInt := by
  have hinside := (hsamples.sampled first (mem_of_mem_head? hfirst)).inside
  have hbelow {at_ : ℤ} (hkeyed : KeyedAt keys at_) : first.at_.toInt ≤ at_ := by
    obtain ⟨found, hfound, rfl⟩ := hkeyed
    rcases head_le_key hsamples.ordered hfirst hfound with rfl | hlt
    · exact le_rfl
    · exact (lt_iff_toInt_lt.mp hlt).le
  rcases lt_or_ge key.at_.toInt delta.toInt with hlt | hle
  · have := hbelow (hsamples.left key hkey hlt)
    omega
  · rcases lt_or_ge key.at_.toInt (delta.toInt + duration.toInt) with hlt | hge
    · have := hbelow (hsamples.inside key hkey hle hlt)
      omega
    · omega

/-- After the last key of the new curve there is none of the old one. -/
theorem le_last (hlast : keys.getLast? = some last) (hlt : last.at_.toInt < duration.toInt - 1)
    (hkey : key ∈ curve.keyframes) : key.at_.toInt ≤ last.at_.toInt + delta.toInt := by
  have hnonneg := (hsamples.sampled last (mem_of_getLast? hlast)).nonneg
  have habove {at_ : ℤ} (hkeyed : KeyedAt keys at_) : at_ ≤ last.at_.toInt := by
    obtain ⟨found, hfound, rfl⟩ := hkeyed
    rcases key_le_last hsamples.ordered hlast hfound with rfl | hlt
    · exact le_rfl
    · exact (lt_iff_toInt_lt.mp hlt).le
  rcases lt_or_ge key.at_.toInt delta.toInt with hlt | hle
  · omega
  · rcases lt_or_ge key.at_.toInt (delta.toInt + duration.toInt) with hlt | hge
    · have := habove (hsamples.inside key hkey hle hlt)
      omega
    · have := habove (hsamples.right key hkey hge)
      omega

variable (h : Rebases curve delta duration)

include h

theorem keyedAt_some : ∃ at_, KeyedAt keys at_ := by
  obtain ⟨key, hkey⟩ := exists_mem_of_ne_nil _ h.valid.ne_nil
  rcases lt_or_ge key.at_.toInt delta.toInt with hlt | hle
  · exact ⟨_, hsamples.left key hkey hlt⟩
  · rcases lt_or_ge key.at_.toInt (delta.toInt + duration.toInt) with hlt | hge
    · exact ⟨_, hsamples.inside key hkey hle hlt⟩
    · exact ⟨_, hsamples.right key hkey hge⟩

theorem valid : ValidKeys keys := by
  obtain ⟨_, key, hkey, -⟩ := hsamples.keyedAt_some h
  exact ⟨ne_nil_of_mem hkey, fun key hkey => (hsamples.sampled key hkey).nonneg, hsamples.ordered⟩

omit hsamples in
/-- The frame of the old curve that a frame of the new one comes from. -/
theorem exists_source (hnonneg : 0 ≤ at_.toInt) (hlt : at_.toInt < duration.toInt) :
    ∃ source : TimeCode, source.toInt = at_.toInt + delta.toInt := by
  have hdelta := h.delta_le
  have hduration := h.duration_le
  rw [maxKeyFrameOffset] at hdelta hduration
  obtain ⟨source, -, hsource⟩ := exists_tryFrom_of_lt (n := at_.toInt + delta.toInt) (by omega) (by omega)
  exact ⟨source, hsource⟩

theorem range (hkey : key ∈ keys) : -600 ≤ key.value ∧ key.value ≤ 120 := by
  have hsampled := hsamples.sampled key hkey
  obtain ⟨source, hsource⟩ := exists_source h hsampled.nonneg hsampled.inside
  obtain ⟨value, hvalue, hrange⟩ := valueAtKeys_total h.valid h.tame source
  obtain rfl := Option.some.inj (hvalue.symm.trans (hsampled.value source hsource))
  exact hrange _ _ h.range

theorem tame : Tame keys := tame_of_range fun _ hkey => hsamples.range h hkey

/-- At a key the new curve has the value of the old one. -/
theorem valueAt_key (hkey : key ∈ keys) (hsource : source.toInt = key.at_.toInt + delta.toInt) :
    valueAtKeys keys key.at_ = curve.valueAt source := by
  rw [valueAtKeys_key (hsamples.valid h) (hsamples.tame h) hkey, (hsamples.sampled key hkey).value source hsource]

/-- At a frame the new curve has the value of the old one, or the frame is between two keys, and no key of the old curve
is between them. -/
theorem cases_at (hnonneg : 0 ≤ at_.toInt) (hlt : at_.toInt < duration.toInt)
    (hsource : source.toInt = at_.toInt + delta.toInt) :
    valueAtKeys keys at_ = curve.valueAt source ∨
      ∃ start stop, Segment keys start stop ∧ start.at_.toInt < at_.toInt ∧ at_.toInt < stop.at_.toInt := by
  have hvalid := hsamples.valid h
  have hsame {key : Keyframe} (hkey : key ∈ keys) (hat : at_ = key.at_) :
      valueAtKeys keys at_ = curve.valueAt source := by
    subst hat
    exact hsamples.valueAt_key h hkey hsource
  rcases hvalid.cases_at at_ with ⟨first, hfirst, hle⟩ | ⟨last, hlast, hle⟩ | ⟨start, stop, hsegment, hle, hlt⟩
  · have hmem := mem_of_mem_head? hfirst
    by_cases hat : at_ = first.at_
    · exact .inl (hsame hmem hat)
    · have hinside := (hsamples.sampled first hmem).inside
      have hless := lt_iff_toInt_lt.mp (Int64.lt_of_le_of_ne hle hat)
      obtain ⟨source', hsource'⟩ := exists_source h (hnonneg.trans hless.le) hinside
      rw [valueAtKeys_first hfirst hle, ← valueAtKeys_first hfirst (Int64.le_refl _), hsamples.valueAt_key h hmem hsource']
      refine .inl (valueAt_before h.valid ?_ ?_)
      all_goals
        intro key hkey
        have := hsamples.first_le hfirst (by omega) hkey
        omega
  · have hmem := mem_of_getLast? hlast
    by_cases hat : at_ = last.at_
    · exact .inl (hsame hmem hat)
    · have hinside := (hsamples.sampled last hmem).nonneg
      have hless := lt_iff_toInt_lt.mp (Int64.lt_of_le_of_ne hle (Ne.symm hat))
      obtain ⟨source', hsource'⟩ := exists_source h hinside (hless.trans hlt)
      rw [valueAtKeys_last hvalid.ordered hlast hle, ← valueAtKeys_last hvalid.ordered hlast (Int64.le_refl _),
        hsamples.valueAt_key h hmem hsource']
      refine .inl (valueAt_after h.valid ?_ ?_)
      all_goals
        intro key hkey
        have := hsamples.le_last hlast (by omega) hkey
        omega
  · by_cases hat : at_ = start.at_
    · exact .inl (hsame hsegment.mem.1 hat)
    · exact .inr ⟨start, stop, hsegment, lt_iff_toInt_lt.mp (Int64.lt_of_le_of_ne hle (Ne.symm hat)),
        lt_iff_toInt_lt.mp hlt⟩

/-- Between two neighbours of one value the new curve has their value. -/
theorem valueAt_flat (hsegment : Segment keys start' stop') (hle : start'.at_.toInt ≤ at_.toInt)
    (hlt : at_.toInt < stop'.at_.toInt) (hflat : start'.interpolation = .hold ∨ start'.value = stop'.value) :
    valueAtKeys keys at_ = some start'.value := by
  obtain ⟨hstart, hstop⟩ := hsegment.mem
  have hlower := le_iff_toInt_le.mpr hle
  have hupper := lt_iff_toInt_lt.mpr hlt
  obtain ⟨value, hvalue, -, -, hstill⟩ := segmentValue_between (hsamples.tame h start' hstart) (hsamples.tame h stop' hstop)
    (hsamples.sampled start' hstart).nonneg hlower hupper
  rw [valueAtKeys_segment (hsamples.valid h) (hsamples.tame h) hsegment hlower hupper, hvalue, hstill (.inr hflat)]

/-- Before and after the keys of the old curve the new one has the same value. -/
theorem valueAt_outside (hnonneg : 0 ≤ at_.toInt) (hlt : at_.toInt < duration.toInt)
    (hsource : source.toInt = at_.toInt + delta.toInt)
    (houtside : (∀ key ∈ curve.keyframes, source.toInt ≤ key.at_.toInt) ∨
      ∀ key ∈ curve.keyframes, key.at_.toInt ≤ source.toInt) : valueAtKeys keys at_ = curve.valueAt source := by
  rcases hsamples.cases_at h hnonneg hlt hsource with hsame | ⟨start, stop, hsegment, hlower, hupper⟩
  · exact hsame
  have hstart := hsamples.sampled start hsegment.mem.1
  have hstop := hsamples.sampled stop hsegment.mem.2
  obtain ⟨first, hfirst⟩ := exists_source h hstart.nonneg hstart.inside
  obtain ⟨last, hlast⟩ := exists_source h hstop.nonneg hstop.inside
  have hnone {key : Keyframe} (hkey : key ∈ curve.keyframes) := hsamples.not_between hsegment hkey
  have hends : curve.valueAt source = curve.valueAt first ∧ curve.valueAt source = curve.valueAt last := by
    rcases houtside with hbefore | hafter
    · refine ⟨valueAt_before h.valid hbefore fun key hkey => ?_, valueAt_before h.valid hbefore fun key hkey => ?_⟩
      · have := hbefore key hkey
        omega
      · have := hbefore key hkey
        have := hnone hkey (by omega)
        omega
    · refine ⟨valueAt_after h.valid hafter fun key hkey => ?_, valueAt_after h.valid hafter fun key hkey => ?_⟩
      · have := hafter key hkey
        by_contra hbetween
        have := hnone hkey (by omega)
        omega
      · have := hafter key hkey
        omega
  have hflat : start.value = stop.value := by
    refine Option.some.inj ?_
    rw [← hstart.value first hfirst, ← hstop.value last hlast, ← hends.1, hends.2]
  rw [hsamples.valueAt_flat h hsegment hlower.le hupper (.inr hflat), ← hstart.value first hfirst, hends.1]

omit h in
/-- Two neighbours of the new curve around a frame of a segment come from within the segment. -/
theorem within_segment (hsegment : Segment keys start' stop') (hold : Segment curve.keyframes start stop)
    (hsource : source.toInt = at_.toInt + delta.toInt) (hlower : start'.at_.toInt < at_.toInt)
    (hupper : at_.toInt < stop'.at_.toInt) (hle : start.at_ ≤ source) (hlt : source < stop.at_) :
    start.at_.toInt ≤ start'.at_.toInt + delta.toInt ∧ stop'.at_.toInt + delta.toInt ≤ stop.at_.toInt := by
  rw [le_iff_toInt_le] at hle
  rw [lt_iff_toInt_lt] at hlt
  constructor
  · by_contra hbetween
    have := hsamples.not_between hsegment hold.mem.1 (by omega)
    omega
  · exact hsamples.not_between hsegment hold.mem.2 (by omega)

/-- On a held segment of the old curve the new one has the same value. -/
theorem valueAt_hold (hnonneg : 0 ≤ at_.toInt) (hlt : at_.toInt < duration.toInt)
    (hsource : source.toInt = at_.toInt + delta.toInt) (hold : Segment curve.keyframes start stop)
    (hhold : start.interpolation = .hold) (hafter : start.at_ ≤ source) (hbefore : source < stop.at_) :
    valueAtKeys keys at_ = curve.valueAt source := by
  rcases hsamples.cases_at h hnonneg hlt hsource with hsame | ⟨start', stop', hsegment, hlower, hupper⟩
  · exact hsame
  have hstart := hsamples.sampled start' hsegment.mem.1
  obtain ⟨first, hfirst⟩ := exists_source h hstart.nonneg hstart.inside
  have hwithin := hsamples.within_segment hsegment hold hsource hlower hupper hafter hbefore
  have hfirstLe : start.at_ ≤ first := le_iff_toInt_le.mpr (by omega)
  have hfirstLt : first < stop.at_ := lt_iff_toInt_lt.mpr (by omega)
  have hheld {at_ : TimeCode} (hle : start.at_ ≤ at_) (hlt : at_ < stop.at_) : curve.valueAt at_ = some start.value := by
    rw [valueAt, valueAtKeys_segment h.valid h.tame hold hle hlt, segmentValue, if_pos hhold]
  have hinterpolation : start'.interpolation = .hold := by
    rw [hstart.interpolation first hfirst, segmentInterpolationAt_segment h.valid hold hfirstLe hfirstLt, hhold]
  rw [hsamples.valueAt_flat h hsegment hlower.le hupper (.inl hinterpolation), ← hstart.value first hfirst,
    hheld hfirstLe hfirstLt, hheld hafter hbefore]

/-- On a linear segment of the old curve the new one is off by one at most. -/
theorem valueAt_linear (hnonneg : 0 ≤ at_.toInt) (hlt : at_.toInt < duration.toInt)
    (hsource : source.toInt = at_.toInt + delta.toInt) (hold : Segment curve.keyframes start stop)
    (hlinear : start.interpolation = .linear) (hafter : start.at_ ≤ source) (hbefore : source < stop.at_) {value value' : Int64}
    (hvalue : curve.valueAt source = some value) (hvalue' : valueAtKeys keys at_ = some value') :
    (value'.toInt - value.toInt).natAbs ≤ 1 := by
  rcases hsamples.cases_at h hnonneg hlt hsource with hsame | ⟨start', stop', hsegment, hlower, hupper⟩
  · obtain rfl := Option.some.inj (hvalue'.symm.trans (hsame.trans hvalue))
    rw [Int.sub_self]
    decide
  obtain ⟨hmem, hmem'⟩ := hsegment.mem
  have hstart := hsamples.sampled start' hmem
  have hstop := hsamples.sampled stop' hmem'
  obtain ⟨first, hfirst⟩ := exists_source h hstart.nonneg hstart.inside
  obtain ⟨last, hlast⟩ := exists_source h hstop.nonneg hstop.inside
  obtain ⟨hwithin, hwithin'⟩ := hsamples.within_segment hsegment hold hsource hlower hupper hafter hbefore
  have hgentle {start stop : Keyframe} (hstart : -600 ≤ start.value ∧ start.value ≤ 120)
      (hstop : -600 ≤ stop.value ∧ stop.value ≤ 120) : Gentle start stop := by
    simp only [le_iff_toInt_le] at hstart hstop
    have hlow : (-600 : Int64).toInt = -600 := by decide
    have hhigh : (120 : Int64).toInt = 120 := by decide
    rw [Gentle]
    omega
  -- the keys of both curves are within the bounds of exact evaluation
  have hbounded {key : Keyframe} (hkey : key ∈ curve.keyframes) : key.Bounded := by
    have hbounds := h.bounds hkey
    exact ⟨by rw [maxKeyFrameOffset]; omega, h.tame key hkey⟩
  have hbounded' {key : Keyframe} (hkey : key ∈ keys) : key.Bounded := by
    have hsampled := hsamples.sampled key hkey
    have hlength := h.duration_le
    have hpos := hsampled.nonneg
    have hinside := hsampled.inside
    rw [maxKeyFrameOffset] at hlength
    exact ⟨by rw [maxKeyFrameOffset]; omega, hsamples.tame h key hkey⟩
  have hspan : start.at_.toInt < stop.at_.toInt := by omega
  have hnear {frame : TimeCode} {value : Int64} (hle : start.at_.toInt ≤ frame.toInt) (hlt : frame.toInt ≤ stop.at_.toInt)
      (hframe : curve.valueAt frame = some value) : NearLine start stop frame.toInt value.toInt := by
    by_cases hend : frame = stop.at_
    · subst hend
      obtain rfl := Option.some.inj (hframe.symm.trans (valueAtKeys_key h.valid h.tame hold.mem.2))
      exact nearLine_stop hspan
    · have hless : frame.toInt < stop.at_.toInt := by
        have hne : frame.toInt ≠ stop.at_.toInt := mt toInt_inj.mp hend
        omega
      obtain ⟨exact_, hexact, hline⟩ := exists_nearLine (hbounded hold.mem.1) (hbounded hold.mem.2) hlinear
        (hgentle (h.range start hold.mem.1) (h.range stop hold.mem.2)) hle hless
      rw [valueAt, valueAtKeys_segment h.valid h.tame hold (le_iff_toInt_le.mpr hle)
        (lt_iff_toInt_lt.mpr hless), hexact] at hframe
      exact Option.some.inj hframe ▸ hline
  have hlinear' : start'.interpolation = .linear := by
    rw [hstart.interpolation first hfirst, segmentInterpolationAt_segment h.valid hold
      (le_iff_toInt_le.mpr (by omega)) (lt_iff_toInt_lt.mpr (by omega)), hlinear]
  obtain ⟨exact_, hexact, hnew⟩ := exists_nearLine (hbounded' hmem) (hbounded' hmem') hlinear'
    (hgentle (hsamples.range h hmem) (hsamples.range h hmem')) hlower.le hupper
  rw [valueAtKeys_segment (hsamples.valid h) (hsamples.tame h) hsegment (le_iff_toInt_le.mpr hlower.le)
    (lt_iff_toInt_lt.mpr hupper), hexact] at hvalue'
  obtain rfl := Option.some.inj hvalue'
  refine natAbs_sub_le_one hspan (hnear (by omega) (by omega) (hstart.value first hfirst))
    (hnear (by omega) (by omega) (hstop.value last hlast)) (by omega) (by omega) (by omega)
    (hnear (by omega) (by omega) hvalue) ?_
  have hframe : start'.at_.toInt + (source.toInt - first.toInt) = at_.toInt := by omega
  rw [hframe]
  exact hnew

end Samples

/-! ## Rebased envelopes -/

/-- The frame is in a segment of the interpolation. -/
def InSegment (curve : AutomationCurve) (interpolation : KeyframeInterpolation) (source : TimeCode) : Prop :=
  ∃ start stop, Segment curve.keyframes start stop ∧ start.interpolation = interpolation ∧ start.at_ ≤ source ∧
    source < stop.at_

/-- The frame is before the first key, or not before the last one. -/
def OutsideKeys (curve : AutomationCurve) (source : TimeCode) : Prop :=
  (∀ key ∈ curve.keyframes, source < key.at_) ∨ ∀ key ∈ curve.keyframes, key.at_ ≤ source

/-- How the value of the new envelope at a frame compares with that of the old one at the frame it comes from. -/
structure Survives (curve : AutomationCurve) (delta duration at_ source : TimeCode) (value value' : Int64) : Prop where
  held : InSegment curve .hold source → value' = value
  outside : OutsideKeys curve source → value' = value
  left : at_ = 0 → (∃ key ∈ curve.keyframes, key.at_.toInt - delta.toInt < 0) → value' = value
  right : at_.toInt = duration.toInt - 1 →
    (∃ key ∈ curve.keyframes, duration.toInt ≤ key.at_.toInt - delta.toInt) → value' = value
  linear : InSegment curve .linear source → (value'.toInt - value.toInt).natAbs ≤ 1

/-- An envelope survives an edit of its clip. -/
theorem rebaseClipCurve_survives (hvalid : curve.validate = .ok ())
    (hrange : ∀ key ∈ curve.keyframes, -600 ≤ key.value ∧ key.value ≤ 120)
    (hframes : ∀ key ∈ curve.keyframes, key.at_.toInt ≤ 2 ^ 40) (hdelta : delta.toInt.natAbs ≤ 2 ^ 40)
    (hduration : 1 ≤ duration.toInt ∧ duration.toInt ≤ 2 ^ 40) :
    (rebaseClipCurve curve delta duration).validate = .ok () ∧
    (∀ key ∈ (rebaseClipCurve curve delta duration).keyframes, 0 ≤ key.at_ ∧ key.at_ < duration) ∧
    ∀ at_ : TimeCode, 0 ≤ at_ → at_ < duration → ∃ source value value',
      source.toInt = at_.toInt + delta.toInt ∧ curve.valueAt source = some value ∧
        (rebaseClipCurve curve delta duration).valueAt at_ = some value' ∧
          Survives curve delta duration at_ source value value' := by
  have h : Rebases curve delta duration :=
    ⟨validate_eq_ok.mp hvalid, hrange, hframes, hdelta, hduration.1, hduration.2⟩
  have hsamples := h.samples
  refine ⟨validate_eq_ok.mpr (hsamples.valid h), fun key hkey => ?_, fun at_ hnonneg hlt => ?_⟩
  · have hsampled := hsamples.sampled key hkey
    exact ⟨le_iff_toInt_le.mpr hsampled.nonneg, lt_iff_toInt_lt.mpr hsampled.inside⟩
  have hnonneg' : 0 ≤ at_.toInt := le_iff_toInt_le.mp hnonneg
  rw [lt_iff_toInt_lt] at hlt
  obtain ⟨source, hsource⟩ := Samples.exists_source h hnonneg' hlt
  obtain ⟨value, hvalue, -⟩ := valueAtKeys_total h.valid h.tame source
  obtain ⟨value', hvalue', -⟩ := valueAtKeys_total (hsamples.valid h) (hsamples.tame h) at_
  refine ⟨source, value, value', hsource, hvalue, hvalue', ?_⟩
  have hsame (heq : valueAtKeys (rebaseClipCurve curve delta duration).keyframes at_ = curve.valueAt source) :
      value' = value := Option.some.inj (hvalue'.symm.trans (heq.trans hvalue))
  have hkeyed {frame : ℤ} (hat : at_.toInt = frame)
      (hkeyed : KeyedAt (rebaseClipCurve curve delta duration).keyframes frame) : value' = value := by
    obtain ⟨key, hkey, hframe⟩ := hkeyed
    obtain rfl : key.at_ = at_ := toInt_inj.mp (hframe.trans hat.symm)
    exact hsame (hsamples.valueAt_key h hkey hsource)
  constructor
  · rintro ⟨start, stop, hsegment, hhold, hafter, hbefore⟩
    exact hsame (hsamples.valueAt_hold h hnonneg' hlt hsource hsegment hhold hafter hbefore)
  · intro houtside
    refine hsame (hsamples.valueAt_outside h hnonneg' hlt hsource (houtside.imp ?_ ?_))
    · exact fun hbefore key hkey => (lt_iff_toInt_lt.mp (hbefore key hkey)).le
    · exact fun hafter key hkey => le_iff_toInt_le.mp (hafter key hkey)
  · rintro rfl ⟨key, hkey, hdropped⟩
    exact hkeyed rfl (hsamples.left key hkey (by omega))
  · rintro hlast ⟨key, hkey, hdropped⟩
    exact hkeyed hlast (hsamples.right key hkey (by omega))
  · rintro ⟨start, stop, hsegment, hlinear, hafter, hbefore⟩
    exact hsamples.valueAt_linear h hnonneg' hlt hsource hsegment hlinear hafter hbefore hvalue hvalue'

/-- A fade of twelve frames, cut at both edges: at frame 2 the new envelope is within one of the 42 that the old one has at
frame 5. -/
theorem rebaseClipCurve_survives_fade : ∃ value,
    (rebaseClipCurve (ramp .linear 12 100) 3 5).valueAt 2 = some value ∧ (value.toInt - 42).natAbs ≤ 1 := by
  have hvalid : (ramp .linear 12 100).validate = .ok () := by decide +kernel
  have hdelta : (3 : TimeCode).toInt.natAbs ≤ 2 ^ 40 := by decide
  have hduration : 1 ≤ (5 : TimeCode).toInt ∧ (5 : TimeCode).toInt ≤ 2 ^ 40 := by decide
  obtain ⟨-, -, hvalues⟩ := rebaseClipCurve_survives hvalid (by decide +kernel) (by decide +kernel) hdelta hduration
  obtain ⟨source, value, value', hsource, hvalue, hvalue', hsurvives⟩ := hvalues 2 (by decide) (by decide)
  obtain rfl : source = 5 := toInt_inj.mp hsource
  have hold : (ramp .linear 12 100).valueAt 5 = some 42 := by decide +kernel
  obtain rfl := Option.some.inj (hvalue.symm.trans hold)
  have hsegment : InSegment (ramp .linear 12 100) .linear 5 := ⟨_, _, ⟨[], [], rfl⟩, rfl, by decide, by decide⟩
  exact ⟨value', hvalue', hsurvives.linear hsegment⟩

end Kinewright.Model
