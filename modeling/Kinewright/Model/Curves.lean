import Kinewright.Model.Evaluation

/-!
# The curves of a project

`automation.rs`: a curve over the frames of the project is valid if its keys go forward from no earlier than the
first frame. It has a value everywhere, between those of its keys. When the project gets shorter, the curve is cut
before its new end: what it is valued at the new last frame is kept there by a key.
-/

namespace Kinewright.Model

open Fallible Rounding List Int64 AutomationCurve

variable {keys : List Keyframe} {key start stop first last : Keyframe} {at_ : TimeCode} {curve : AutomationCurve}

/-! ## Valid keys -/

/-- What `AutomationCurve::validate` accepts. -/
structure ValidKeys (keys : List Keyframe) : Prop where
  ne_nil : keys ≠ []
  nonneg : ∀ key ∈ keys, 0 ≤ key.at_.toInt
  ordered : Ordered keys

theorem validateKeys_eq_ok : validateKeys (key :: keys) = .ok () ↔
      (∀ next ∈ keys, 0 ≤ next.at_.toInt) ∧ Ordered (key :: keys) := by
  induction keys generalizing key with
  | nil => exact ⟨fun _ => ⟨forall_mem_nil _, isChain_singleton key⟩, fun _ => rfl⟩
  | cons next keys ih =>
    rw [validateKeys, unless_eq_ok, unless_eq_ok, ih, forall_mem_cons, Int.not_lt, Int64.not_le,
      Ordered, Ordered, isChain_cons_cons]
    tauto

theorem AutomationCurve.validate_eq_ok : curve.validate = .ok () ↔ ValidKeys curve.keyframes := by
  rw [validate]
  cases hkeys : curve.keyframes with
  | nil => exact ⟨nofun, fun h => absurd rfl h.ne_nil⟩
  | cons first keys =>
    rw [unless_eq_ok, validateKeys_eq_ok, Int.not_lt]
    constructor
    · rintro ⟨hfirst, hrest, hordered⟩
      exact ⟨cons_ne_nil _ _, forall_mem_cons.mpr ⟨hfirst, hrest⟩, hordered⟩
    · rintro ⟨-, hnonneg, hordered⟩
      obtain ⟨hfirst, hrest⟩ := forall_mem_cons.mp hnonneg
      exact ⟨hfirst, hrest, hordered⟩

/-- The values of the keys are within the bound of evaluation. -/
def Tame (keys : List Keyframe) : Prop := ∀ key ∈ keys, key.value.toInt.natAbs ≤ provenValueBound

/-! ## Values between the keys -/

/-- Wherever the keys are, a segment is an easing between its values. -/
theorem segmentValue_eased (hstart : start.value.toInt.natAbs ≤ provenValueBound)
    (hstop : stop.value.toInt.natAbs ≤ provenValueBound) (hpos : 0 ≤ start.at_.toInt)
    (hle : start.at_.toInt ≤ at_.toInt) (hlt : at_.toInt < stop.at_.toInt) (hkind : start.interpolation ≠ .hold) :
    ∃ eased value, 0 ≤ eased ∧ eased ≤ curveScale ∧ (at_.toInt = start.at_.toInt → eased = 0) ∧
      segmentValue start stop at_ = some value ∧
      value.toInt = start.value.toInt + halfAway curveScale ((stop.value.toInt - start.value.toInt) * eased) := by
  have hscale : curveScale = 1000000 := rfl
  have hlast := stop.at_.toInt_lt
  obtain ⟨span, hspan, hspanInt⟩ := exists_tryFrom_of_lt (n := stop.at_.toInt - start.at_.toInt) (by omega) (by omega)
  obtain ⟨offset, hoffset, hoffsetInt⟩ := exists_tryFrom_of_lt (n := at_.toInt - start.at_.toInt) (by omega) (by omega)
  -- a product that is too large is cut off, and stays below the whole span
  have hscaled : 0 ≤ (Int64.ofIntClamp (offset.toInt * curveScale)).toInt ∧
      (Int64.ofIntClamp (offset.toInt * curveScale)).toInt ≤ offset.toInt * curveScale := by
    by_cases hfits : offset.toInt * curveScale ≤ Int64.maxValue.toInt
    · rw [toInt_ofIntClamp (by rw [toInt_minValue, hscale]; omega) hfits, hscale]
      omega
    · have hclamp : Int64.ofIntClamp (offset.toInt * curveScale) = Int64.maxValue := by
        have hlow : Int64.minValue.toInt ≤ offset.toInt * curveScale := by
          rw [toInt_minValue, hscale]
          omega
        rw [Int64.ofIntClamp, dif_pos hlow, dif_neg hfits]
      rw [hclamp]
      exact ⟨by decide, (Int.not_le.mp hfits).le⟩
  have hnonneg : 0 ≤ (Int64.ofIntClamp (offset.toInt * curveScale)).toInt.tdiv span.toInt :=
    Int.tdiv_nonneg hscaled.1 (by omega)
  have hupper : (Int64.ofIntClamp (offset.toInt * curveScale)).toInt.tdiv span.toInt ≤ curveScale := by
    rw [Int.tdiv_eq_ediv_of_nonneg hscaled.1]
    refine Int.ediv_le_of_le_mul (by omega) (hscaled.2.trans ?_)
    rw [Int.mul_comm curveScale]
    exact Int.mul_le_mul_of_nonneg_right (by omega) (by decide)
  have hzero : at_.toInt = start.at_.toInt →
      (Int64.ofIntClamp (offset.toInt * curveScale)).toInt.tdiv span.toInt = 0 := by
    intro hsame
    have hoffsetZero : (Int64.ofIntClamp (offset.toInt * curveScale)).toInt = 0 := by
      have hnone : offset.toInt = 0 := by omega
      rw [hnone, Int.zero_mul] at hscaled
      rw [hnone, Int.zero_mul]
      omega
    rw [hoffsetZero, Int.zero_tdiv]
  rw [segmentValue, if_neg hkind, checkedSub, hspan, checkedSub, hoffset]
  simp only [Option.bind_eq_bind, Option.bind_some]
  generalize (Int64.ofIntClamp (offset.toInt * curveScale)).toInt.tdiv span.toInt = linear at hnonneg hupper hzero ⊢
  have heased := easeKernel_bounds hnonneg hupper start.interpolation
  have heasedZero : at_.toInt = start.at_.toInt → easeKernel linear start.interpolation = 0 := by
    intro hsame
    rw [hzero hsame, easeKernel_zero]
  generalize easeKernel linear start.interpolation = eased at heased heasedZero ⊢
  obtain ⟨value, hvalue, hvalueInt⟩ := exists_eased_value hstart hstop heased.1 heased.2
  exact ⟨eased, value, heased.1, heased.2, heasedZero, hvalue, hvalueInt⟩

/-- The frame is at the start of a segment, or on one that is held or that goes nowhere. -/
def Still (start stop : Keyframe) (at_ : TimeCode) : Prop :=
  at_ = start.at_ ∨ start.interpolation = .hold ∨ start.value = stop.value

/-- Within a segment the values lie between those of its keys. -/
theorem segmentValue_between (hstart : start.value.toInt.natAbs ≤ provenValueBound)
    (hstop : stop.value.toInt.natAbs ≤ provenValueBound) (hpos : 0 ≤ start.at_.toInt) (hle : start.at_ ≤ at_)
    (hlt : at_ < stop.at_) :
    ∃ value, segmentValue start stop at_ = some value ∧ min start.value.toInt stop.value.toInt ≤ value.toInt ∧
      value.toInt ≤ max start.value.toInt stop.value.toInt ∧ (Still start stop at_ → value = start.value) := by
  rw [le_iff_toInt_le] at hle
  rw [lt_iff_toInt_lt] at hlt
  by_cases hkind : start.interpolation = .hold
  · exact ⟨start.value, by rw [segmentValue, if_pos hkind], by omega, by omega, fun _ => rfl⟩
  · obtain ⟨eased, value, heased, hle', hzero, hvalue, hint⟩ := segmentValue_eased hstart hstop hpos hle hlt hkind
    have hbetween := adjustment_between (stop.value.toInt - start.value.toInt) heased hle'
    refine ⟨value, hvalue, by omega, by omega, ?_⟩
    have hnone : (stop.value.toInt - start.value.toInt) * eased = 0 → value = start.value := by
      intro hproduct
      rw [hproduct, halfAway_zero (by decide), Int.add_zero, toInt_inj] at hint
      exact hint
    rintro (rfl | hhold | hsame)
    · exact hnone (by rw [hzero rfl, Int.mul_zero])
    · exact absurd hhold hkind
    · exact hnone (by rw [hsame, Int.sub_self, Int.zero_mul])

/-- The scan stops at the segment of the frame. -/
theorem scanKeys_segment (h : Ordered keys) (hsegment : Segment keys start stop) (hle : start.at_ ≤ at_)
    (hlt : at_ < stop.at_) : scanKeys at_ keys = segmentValue start stop at_ := by
  refine Ordered.segment_rec (P := fun keys => scanKeys at_ keys = segmentValue start stop at_) h hsegment
    (fun rest => ?_) fun key next rest hnext ih => ?_
  · rw [scanKeys, if_pos ⟨hle, hlt⟩]
  · have hout : ¬ (key.at_ ≤ at_ ∧ at_ < next.at_) := fun hin =>
      absurd (Int64.lt_of_lt_of_le hin.2 (Int64.le_trans hnext hle)) Int64.lt_irrefl
    rw [scanKeys, if_neg hout, ih]

section

variable (h : ValidKeys keys)

include h

/-- The keys before and after a frame between them. -/
theorem ValidKeys.ends : ∃ first last, keys.head? = some first ∧ keys.getLast? = some last :=
  ⟨_, _, head?_eq_some_head h.ne_nil, getLast?_eq_some_getLast h.ne_nil⟩

/-- In a segment the curve has the value of the segment. -/
theorem valueAtKeys_segment (htame : Tame keys) (hsegment : Segment keys start stop)
    (hle : start.at_ ≤ at_) (hlt : at_ < stop.at_) : valueAtKeys keys at_ = segmentValue start stop at_ := by
  obtain ⟨first, last, hfirst, hlast⟩ := h.ends
  obtain ⟨hstart, hstop⟩ := hsegment.mem
  by_cases hbefore : at_ ≤ first.at_
  · -- the frame is that of the first key, where the first segment starts
    have hsame : start = first := by
      rcases head_le_key h.ordered hfirst hstart with heq | hless
      · exact heq.symm
      · exact absurd (Int64.lt_of_lt_of_le hless (Int64.le_trans hle hbefore)) Int64.lt_irrefl
    subst hsame
    obtain ⟨value, hvalue, -, -, hstill⟩ := segmentValue_between (htame start hstart) (htame stop hstop)
      (h.nonneg start hstart) hle hlt
    rw [valueAtKeys_first hfirst hbefore, hvalue, hstill (.inl (Int64.le_antisymm hbefore hle))]
  · have hafter : ¬ last.at_ ≤ at_ := by
      intro hafter
      rcases key_le_last h.ordered hlast hstop with rfl | hless
      · exact absurd (Int64.lt_of_lt_of_le hlt hafter) Int64.lt_irrefl
      · exact absurd (Int64.lt_of_lt_of_le (Int64.lt_trans hlt hless) hafter) Int64.lt_irrefl
    rw [valueAtKeys, hfirst, hlast]
    dsimp only
    rw [if_neg hbefore, if_neg hafter]
    exact scanKeys_segment h.ordered hsegment hle hlt

/-- A frame is before the keys, after them, or in a segment of them. -/
theorem ValidKeys.cases_at (at_ : TimeCode) :
    (∃ first, keys.head? = some first ∧ at_ ≤ first.at_) ∨ (∃ last, keys.getLast? = some last ∧ last.at_ ≤ at_) ∨
      ∃ start stop, Segment keys start stop ∧ start.at_ ≤ at_ ∧ at_ < stop.at_ := by
  obtain ⟨first, last, hfirst, hlast⟩ := h.ends
  by_cases hbefore : at_ ≤ first.at_
  · exact .inl ⟨first, hfirst, hbefore⟩
  · by_cases hafter : last.at_ ≤ at_
    · exact .inr (.inl ⟨last, hlast, hafter⟩)
    · exact .inr (.inr (exists_segment_at hfirst hlast (Int64.le_of_lt (Int64.not_le.mp hbefore))
        (Int64.not_le.mp hafter)))

/-- The curve has the value of a key at the frame of the key. -/
theorem valueAtKeys_key (htame : Tame keys) (hkey : key ∈ keys) : valueAtKeys keys key.at_ = some key.value := by
  rcases exists_segment hkey with hlast | ⟨stop, hsegment⟩
  · exact valueAtKeys_last h.ordered hlast (Int64.le_refl _)
  · have hlt := hsegment.lt h.ordered
    obtain ⟨value, hvalue, -, -, hstill⟩ := segmentValue_between (htame key hkey) (htame stop hsegment.mem.2)
      (h.nonneg key hkey) (Int64.le_refl _) hlt
    rw [valueAtKeys_segment h htame hsegment (Int64.le_refl _) hlt, hvalue, hstill (.inl rfl)]

/-- A curve has a value at every frame, within every range of the values of its keys. -/
theorem valueAtKeys_total (htame : Tame keys) (at_ : TimeCode) :
    ∃ value, valueAtKeys keys at_ = some value ∧ ∀ low high : Int64,
      (∀ key ∈ keys, low ≤ key.value ∧ key.value ≤ high) → low ≤ value ∧ value ≤ high := by
  rcases h.cases_at at_ with ⟨first, hfirst, hle⟩ | ⟨last, hlast, hle⟩ | ⟨start, stop, hsegment, hle, hlt⟩
  · exact ⟨first.value, valueAtKeys_first hfirst hle, fun low high hrange =>
      hrange first (mem_of_mem_head? hfirst)⟩
  · exact ⟨last.value, valueAtKeys_last h.ordered hlast hle, fun low high hrange =>
      hrange last (mem_of_getLast? hlast)⟩
  · obtain ⟨hstart, hstop⟩ := hsegment.mem
    obtain ⟨value, hvalue, hlower, hupper, -⟩ := segmentValue_between (htame start hstart) (htame stop hstop)
      (h.nonneg start hstart) hle hlt
    refine ⟨value, (valueAtKeys_segment h htame hsegment hle hlt).trans hvalue, fun low high hrange => ?_⟩
    obtain ⟨hlowStart, hhighStart⟩ := hrange start hstart
    obtain ⟨hlowStop, hhighStop⟩ := hrange stop hstop
    rw [le_iff_toInt_le] at hlowStart hhighStart hlowStop hhighStop
    rw [le_iff_toInt_le, le_iff_toInt_le]
    omega

end

/-! ## Keys in a map by their position -/

theorem insertKey_last (h : Ordered keys) (hle : ∀ other ∈ keys, other.at_ ≤ key.at_) :
    insertKey key keys = keys.filter (fun other => other.at_ < key.at_) ++ [key] := by
  induction keys with
  | nil => rfl
  | cons other keys ih =>
    obtain ⟨hother, hle⟩ := forall_mem_cons.mp hle
    obtain ⟨hnext, -⟩ := pairwise_cons.mp h.pairwise
    rw [insertKey, if_neg (Int64.not_lt.mpr hother)]
    by_cases hsame : key.at_ = other.at_
    · -- a key of the same position is the last one
      have hnil : keys = [] := by
        refine eq_nil_iff_forall_not_mem.mpr fun next hmem => ?_
        have hlt := hnext next hmem
        rw [← hsame] at hlt
        exact absurd (Int64.lt_of_lt_of_le hlt (hle next hmem)) Int64.lt_irrefl
      rw [if_pos hsame, hnil, filter_cons_of_neg (by simp [hsame])]
      rfl
    · have hlt : other.at_ < key.at_ := Int64.lt_of_le_of_ne hother (Ne.symm hsame)
      rw [if_neg hsame, ih h.tail hle, filter_cons_of_pos (by simp [hlt])]
      rfl

/-- Keys that go forward are inserted one after the other. -/
theorem foldl_insertKey {before : List Keyframe} (h : Ordered (before ++ keys)) :
    keys.foldl (fun keys key => insertKey key keys) before = before ++ keys := by
  induction keys generalizing before with
  | nil => rw [foldl_nil, append_nil]
  | cons key keys ih =>
    have hlt : ∀ other ∈ before, other.at_ < key.at_ := fun other hother =>
      (pairwise_append.mp h.pairwise).2.2 other hother key mem_cons_self
    have hall : before.filter (fun other => other.at_ < key.at_) = before :=
      filter_eq_self.mpr fun other hother => decide_eq_true (hlt other hother)
    rw [foldl_cons, insertKey_last h.left_of_append fun other hother => Int64.le_of_lt (hlt other hother), hall,
      ih (by rwa [append_assoc]), append_assoc]
    rfl

theorem Ordered.filter (h : Ordered keys) (p : Keyframe → Bool) : Ordered (keys.filter p) :=
  isChain_iff_pairwise.mpr (h.pairwise.filter p)

/-! ## Cutting a curve -/

theorem AutomationCurve.segmentInterpolationAt_mem (h : curve.keyframes ≠ []) (at_ : TimeCode) :
    ∃ key ∈ curve.keyframes, curve.segmentInterpolationAt at_ = key.interpolation := by
  rw [segmentInterpolationAt]
  cases hkeys : curve.keyframes with
  | nil => exact absurd hkeys h
  | cons first keys =>
    dsimp only
    split
    · exact ⟨first, mem_cons_self, rfl⟩
    · cases hfind : (first :: keys).reverse.find? fun key => key.at_ ≤ at_ with
      | none => exact ⟨first, mem_cons_self, rfl⟩
      | some key => exact ⟨key, mem_reverse.mp (mem_of_find?_eq_some hfind), rfl⟩

/-- A boundary key has the value that the curve has at its source. -/
theorem boundaryKey_value (h : ValidKeys curve.keyframes) (htame : Tame curve.keyframes) (at_ source : TimeCode) :
    curve.valueAt source = some (boundaryKey curve at_ source).value := by
  obtain ⟨value, hvalue, -⟩ := valueAtKeys_total h htame source
  have hsource : curve.valueAt source = some value := hvalue
  rw [boundaryKey, hsource]
  rfl

@[simp] theorem boundaryKey_at (curve : AutomationCurve) (at_ source : TimeCode) :
    (boundaryKey curve at_ source).at_ = at_ := rfl

section

variable (h : ValidKeys curve.keyframes)

include h

/-- What is left of a curve: keys before the end, and a boundary key. -/
theorem clampProjectCurve_eq {duration boundary : TimeCode} (hpos : 0 < duration.toInt)
    (hcut : ∃ key ∈ curve.keyframes, duration ≤ key.at_) (hboundary : boundary.toInt = duration.toInt - 1) :
    (clampProjectCurve curve duration).keyframes
      = curve.keyframes.filter (fun key => key.at_ < boundary) ++ [boundaryKey curve boundary boundary] := by
  obtain ⟨key, hkey, hle⟩ := hcut
  have hall : ¬ (curve.keyframes.all fun key => key.at_ < duration) = true := by
    rw [all_eq_true]
    intro hall
    exact absurd (of_decide_eq_true (hall key hkey)) (Int64.not_lt.mpr hle)
  have hsub : saturatingSub duration 1 = boundary := by
    rw [← toInt_inj, saturatingSub_eq boundary boundary (by rw [hboundary]; rfl) (by rw [hboundary]; rfl), hboundary]
    rfl
  have hordered := h.ordered.filter fun key => key.at_ < duration
  have hbefore : ∀ other ∈ curve.keyframes.filter (fun key => key.at_ < duration),
      other.at_ ≤ (boundaryKey curve boundary boundary).at_ := by
    intro other hother
    have hlt := of_decide_eq_true (mem_filter.mp hother).2
    rw [lt_iff_toInt_lt] at hlt
    rw [boundaryKey_at, le_iff_toInt_le]
    omega
  have hfilter : (curve.keyframes.filter fun key => key.at_ < duration).filter
      (fun other => other.at_ < (boundaryKey curve boundary boundary).at_)
      = curve.keyframes.filter fun key => key.at_ < boundary := by
    rw [filter_filter]
    refine filter_congr fun other _ => ?_
    rw [← Bool.decide_and, decide_eq_decide, boundaryKey_at, lt_iff_toInt_lt, lt_iff_toInt_lt]
    omega
  rw [clampProjectCurve, if_neg h.ne_nil, if_neg (by omega), if_neg hall, hsub]
  dsimp only
  rw [foldl_insertKey (by exact hordered), nil_append, insertKey_last hordered hbefore, hfilter]

/-- A curve is cut to nothing, cut before its last frame, or not cut. -/
theorem clampProjectCurve_cases (duration : TimeCode) :
    (duration ≤ 0 ∧ (clampProjectCurve curve duration).keyframes = [boundaryKey curve 0 0]) ∨
    (∃ boundary, 0 ≤ boundary.toInt ∧ boundary.toInt = duration.toInt - 1 ∧
      (∃ key ∈ curve.keyframes, duration ≤ key.at_) ∧ (clampProjectCurve curve duration).keyframes
        = curve.keyframes.filter (fun key => key.at_ < boundary) ++ [boundaryKey curve boundary boundary]) ∨
    ((∀ key ∈ curve.keyframes, key.at_ < duration) ∧ clampProjectCurve curve duration = curve) := by
  by_cases hpos : duration.toInt ≤ 0
  · rw [clampProjectCurve, if_neg h.ne_nil, if_pos hpos]
    exact .inl ⟨le_iff_toInt_le.mpr hpos, rfl⟩
  by_cases hcut : ∃ key ∈ curve.keyframes, duration ≤ key.at_
  · obtain ⟨boundary, -, hboundary⟩ := exists_tryFrom_of_lt (n := duration.toInt - 1) (by omega)
      (by have := duration.toInt_lt; omega)
    exact .inr (.inl ⟨boundary, by omega, hboundary, hcut, clampProjectCurve_eq h (by omega) hcut hboundary⟩)
  · have hbefore : ∀ key ∈ curve.keyframes, key.at_ < duration := fun key hkey =>
      Int64.not_le.mp fun hle => hcut ⟨key, hkey, hle⟩
    have hall : (curve.keyframes.all fun key => key.at_ < duration) = true :=
      all_eq_true.mpr fun key hkey => decide_eq_true (hbefore key hkey)
    rw [clampProjectCurve, if_neg h.ne_nil, if_neg hpos, if_pos hall]
    exact .inr (.inr ⟨hbefore, rfl⟩)

theorem clampProjectCurve_valid (duration : TimeCode) : ValidKeys (clampProjectCurve curve duration).keyframes := by
  rcases clampProjectCurve_cases h duration with ⟨-, heq⟩ | ⟨boundary, hnonneg, -, -, heq⟩ | ⟨-, heq⟩
  · rw [heq]
    refine ⟨cons_ne_nil _ _, ?_, isChain_singleton _⟩
    intro key hkey
    obtain rfl := mem_singleton.mp hkey
    exact Int.le_refl _
  · rw [heq]
    refine ⟨by simp, ?_, ?_⟩
    · intro key hkey
      rcases mem_append.mp hkey with hmem | hmem
      · exact h.nonneg key (mem_filter.mp hmem).1
      · obtain rfl := mem_singleton.mp hmem
        exact hnonneg
    · refine isChain_iff_pairwise.mpr (pairwise_append.mpr ⟨?_, pairwise_singleton _ _, ?_⟩)
      · exact (h.ordered.filter _).pairwise
      · intro key hkey other hother
        obtain rfl := mem_singleton.mp hother
        exact of_decide_eq_true (mem_filter.mp hkey).2
  · rw [heq]
    exact h

/-- The keys of a curve that was cut: old ones, or one key that reads the curve. -/
theorem clampProjectCurve_mem {duration : TimeCode} (hkey : key ∈ (clampProjectCurve curve duration).keyframes) :
    (key.at_ < duration ∨ duration ≤ 0 ∧ key.at_ = 0) ∧
      (key ∈ curve.keyframes ∨ ∃ source, key = boundaryKey curve key.at_ source) := by
  rcases clampProjectCurve_cases h duration with ⟨hpos, heq⟩ | ⟨boundary, -, hboundary, -, heq⟩ | ⟨hbefore, heq⟩
  · rw [heq] at hkey
    obtain rfl := mem_singleton.mp hkey
    exact ⟨.inr ⟨hpos, rfl⟩, .inr ⟨0, rfl⟩⟩
  · rw [heq, mem_append, mem_singleton, mem_filter] at hkey
    rcases hkey with ⟨hmem, hlt⟩ | rfl
    · have hlt := of_decide_eq_true hlt
      rw [lt_iff_toInt_lt] at hlt
      exact ⟨.inl (lt_iff_toInt_lt.mpr (by omega)), .inl hmem⟩
    · refine ⟨.inl ?_, .inr ⟨boundary, rfl⟩⟩
      rw [boundaryKey_at, lt_iff_toInt_lt]
      omega
  · rw [heq] at hkey
    exact ⟨.inl (hbefore key hkey), .inl hkey⟩

end

/-! ## What a cut keeps -/

/-- The frame is outside of the keys, or on a part of the curve that is held or constant. -/
def Flat (keys : List Keyframe) (at_ : TimeCode) : Prop :=
  ∀ start stop, Segment keys start stop → start.at_ ≤ at_ → at_ < stop.at_ →
    start.interpolation = .hold ∨ start.value = stop.value

/-- In the frames before the end the flat parts of the curve are kept, and so is the value at the last one. -/
structure KeepsValues (duration : TimeCode) (curve curve' : AutomationCurve) : Prop where
  flat : ∀ at_ : TimeCode, 0 ≤ at_.toInt → at_ < duration → Flat curve.keyframes at_ →
    curve'.valueAt at_ = curve.valueAt at_
  last : ∀ at_ : TimeCode, 0 ≤ at_.toInt → at_.toInt = duration.toInt - 1 → curve'.valueAt at_ = curve.valueAt at_

theorem KeepsValues.refl (duration : TimeCode) (curve : AutomationCurve) : KeepsValues duration curve curve :=
  ⟨fun _ _ _ _ => rfl, fun _ _ _ => rfl⟩

/-- Between two keys of the same value the curve has that value. -/
theorem valueAtKeys_flat (h : ValidKeys keys) (htame : Tame keys) (hsegment : Segment keys start stop)
    (hsame : start.value = stop.value) (hle : start.at_ ≤ at_) (hle' : at_ ≤ stop.at_) :
    valueAtKeys keys at_ = some start.value := by
  obtain ⟨hstart, hstop⟩ := hsegment.mem
  by_cases heq : at_ = stop.at_
  · rw [heq, valueAtKeys_key h htame hstop, hsame]
  · have hlt := Int64.lt_of_le_of_ne hle' heq
    obtain ⟨value, hvalue, -, -, hstill⟩ := segmentValue_between (htame start hstart) (htame stop hstop)
      (h.nonneg start hstart) hle hlt
    rw [valueAtKeys_segment h htame hsegment hle hlt, hvalue, hstill (.inr (.inr hsame))]

section Cut

variable {duration boundary : TimeCode}

section

variable (h : ValidKeys curve.keyframes) (htame : Tame curve.keyframes)

include h htame

/-- The keys of a cut curve are read as the whole curve is read there. -/
theorem valueAt_of_cut
    (hkey : key ∈ curve.keyframes.filter (fun key => key.at_ < boundary) ++ [boundaryKey curve boundary boundary]) :
    valueAtKeys curve.keyframes key.at_ = some key.value := by
  rcases mem_append.mp hkey with hmem | hmem
  · exact valueAtKeys_key h htame (mem_filter.mp hmem).1
  · obtain rfl := mem_singleton.mp hmem
    exact boundaryKey_value h htame boundary boundary

theorem tame_of_cut :
    Tame (curve.keyframes.filter (fun key => key.at_ < boundary) ++ [boundaryKey curve boundary boundary]) := by
  intro key hkey
  obtain ⟨value, hvalue, hrange⟩ := valueAtKeys_total h htame key.at_
  rw [valueAt_of_cut h htame hkey, Option.some.injEq] at hvalue
  obtain ⟨hlow, hhigh⟩ := hrange (-1000000) 1000000 fun other hother => by
    have hbound := htame other hother
    rw [provenValueBound] at hbound
    rw [le_iff_toInt_le, le_iff_toInt_le]
    have hlow : (-1000000 : Int64).toInt = -1000000 := by decide
    have hhigh : (1000000 : Int64).toInt = 1000000 := by decide
    omega
  rw [le_iff_toInt_le] at hlow hhigh
  have hlow' : (-1000000 : Int64).toInt = -1000000 := by decide
  have hhigh' : (1000000 : Int64).toInt = 1000000 := by decide
  rw [provenValueBound, hvalue]
  omega

/-- Before its new last frame a cut curve has the values of the flat parts. -/
theorem valueAtKeys_cut
    (hvalid : ValidKeys (curve.keyframes.filter (fun key => key.at_ < boundary) ++ [boundaryKey curve boundary boundary]))
    (hcut : ∃ key ∈ curve.keyframes, boundary < key.at_) (hlt : at_ < boundary) (hflat : Flat curve.keyframes at_) :
    valueAtKeys (curve.keyframes.filter (fun key => key.at_ < boundary) ++ [boundaryKey curve boundary boundary]) at_
      = valueAtKeys curve.keyframes at_ := by
  have hread {key : Keyframe}
      (hkey : key ∈ curve.keyframes.filter (fun key => key.at_ < boundary) ++ [boundaryKey curve boundary boundary]) :
      valueAtKeys curve.keyframes key.at_ = some key.value := valueAt_of_cut h htame hkey
  have htame' : Tame
      (curve.keyframes.filter (fun key => key.at_ < boundary) ++ [boundaryKey curve boundary boundary]) :=
    tame_of_cut h htame
  have hold {key : Keyframe} (hkey : key ∈ curve.keyframes) (hbefore : key.at_ < boundary) :
      key ∈ curve.keyframes.filter (fun key => key.at_ < boundary) ++ [boundaryKey curve boundary boundary] :=
    mem_append_left _ (mem_filter.mpr ⟨hkey, decide_eq_true hbefore⟩)
  have hend : boundaryKey curve boundary boundary
      ∈ curve.keyframes.filter (fun key => key.at_ < boundary) ++ [boundaryKey curve boundary boundary] :=
    mem_append_right _ (mem_singleton_self _)
  have hsource {key : Keyframe}
      (hkey : key ∈ curve.keyframes.filter (fun key => key.at_ < boundary) ++ [boundaryKey curve boundary boundary]) :
      key ∈ curve.keyframes ∨ key.at_ = boundary := by
    rcases mem_append.mp hkey with hmem | hmem
    · exact .inl (mem_filter.mp hmem).1
    · exact .inr (congrArg Keyframe.at_ (mem_singleton.mp hmem))
  have hendAt := boundaryKey_at curve boundary boundary
  generalize curve.keyframes.filter (fun key => key.at_ < boundary) ++ [boundaryKey curve boundary boundary] = keys'
    at hvalid hread htame' hold hend hsource ⊢
  generalize boundaryKey curve boundary boundary = bound at hend hendAt
  rcases h.cases_at at_ with ⟨first, hfirst, hle⟩ | ⟨last, hlast, hle⟩ | ⟨start, stop, hsegment, hle, hltStop⟩
  · -- before the first key both curves have its value
    obtain ⟨first', -, hfirst', -⟩ := hvalid.ends
    have hmem' := mem_of_mem_head? hfirst'
    have hfirstLe {key : Keyframe} (hkey : key ∈ keys') : first'.at_ ≤ key.at_ := by
      rcases head_le_key hvalid.ordered hfirst' hkey with rfl | hless
      · exact Int64.le_refl _
      · exact Int64.le_of_lt hless
    have hbefore : at_ ≤ first'.at_ := by
      rcases hsource hmem' with hmem | hat
      · rcases head_le_key h.ordered hfirst hmem with rfl | hless
        · exact hle
        · exact Int64.le_trans hle (Int64.le_of_lt hless)
      · rw [hat]
        exact Int64.le_of_lt hlt
    have hearly : first'.at_ ≤ first.at_ := by
      by_cases hin : first.at_ < boundary
      · exact hfirstLe (hold (mem_of_mem_head? hfirst) hin)
      · have hboundary := hfirstLe hend
        rw [hendAt] at hboundary
        exact Int64.le_trans hboundary (Int64.not_lt.mp hin)
    have hvalue := hread hmem'
    rw [valueAtKeys_first hfirst hearly] at hvalue
    rw [valueAtKeys_first hfirst' hbefore, valueAtKeys_first hfirst hle, hvalue]
  · -- a key behind the cut is not before the last one
    obtain ⟨key, hkey, hlate⟩ := hcut
    have hafter : key.at_ ≤ last.at_ := by
      rcases key_le_last h.ordered hlast hkey with rfl | hless
      · exact Int64.le_refl _
      · exact Int64.le_of_lt hless
    exact absurd (Int64.lt_of_lt_of_le (Int64.lt_trans hlt hlate) (Int64.le_trans hafter hle)) Int64.lt_irrefl
  · -- the segment of the frame starts with the same key, and ends no later
    obtain ⟨hstart, hstop⟩ := hsegment.mem
    have hstart' := hold hstart (Int64.lt_of_le_of_lt hle hlt)
    have hstartEnd : start.at_ < bound.at_ := hendAt ▸ Int64.lt_of_le_of_lt hle hlt
    obtain ⟨stop', hsegment'⟩ : ∃ stop', Segment keys' start stop' := by
      rcases exists_segment hstart' with hlast | hsegment'
      · rcases key_le_last hvalid.ordered hlast hend with heq | hless
        · exact absurd (heq ▸ hstartEnd) Int64.lt_irrefl
        · exact absurd (Int64.lt_trans hless hstartEnd) Int64.lt_irrefl
      · exact hsegment'
    have hstop' := hsegment'.mem.2
    have hstopLe : stop'.at_ ≤ stop.at_ := by
      by_cases hin : stop.at_ < boundary
      · exact hsegment'.stop_le hvalid.ordered (hold hstop hin) (hsegment.lt h.ordered)
      · have hboundary := hsegment'.stop_le hvalid.ordered hend hstartEnd
        rw [hendAt] at hboundary
        exact Int64.le_trans hboundary (Int64.not_lt.mp hin)
    have hlt' : at_ < stop'.at_ := by
      rcases hsource hstop' with hmem | hat
      · exact Int64.lt_of_lt_of_le hltStop (hsegment.stop_le h.ordered hmem (hsegment'.lt hvalid.ordered))
      · rw [hat]
        exact hlt
    have hvalue' := hread hstop'
    have hstill' : Still start stop' at_ := by
      rcases hflat start stop hsegment hle hltStop with hhold | hsame
      · exact .inr (.inl hhold)
      · rw [valueAtKeys_flat h htame hsegment hsame (Int64.le_of_lt (hsegment'.lt hvalid.ordered)) hstopLe,
          Option.some.injEq] at hvalue'
        exact .inr (.inr hvalue')
    obtain ⟨value, hvalue, -, -, hstill⟩ := segmentValue_between (htame start hstart) (htame stop hstop)
      (h.nonneg start hstart) hle hltStop
    obtain ⟨value', hvalue', -, -, hstill''⟩ := segmentValue_between (htame' start hstart') (htame' stop' hstop')
      (hvalid.nonneg start hstart') hle hlt'
    rw [valueAtKeys_segment hvalid htame' hsegment' hle hlt', valueAtKeys_segment h htame hsegment hle hltStop, hvalue,
      hvalue', hstill'' hstill', hstill (.inr (hflat start stop hsegment hle hltStop))]

/-- Cutting a curve keeps its flat parts, and its value at the new last frame. -/
theorem clampProjectCurve_keeps (duration : TimeCode) :
    KeepsValues duration curve (clampProjectCurve curve duration) := by
  have hvalid := clampProjectCurve_valid h duration
  rcases clampProjectCurve_cases h duration with ⟨hpos, -⟩ | ⟨boundary, -, hboundary, ⟨key, hkey, hlate⟩, heq⟩ | ⟨-, heq⟩
  · -- there is no frame before the end
    rw [le_iff_toInt_le] at hpos
    have hzero : (0 : TimeCode).toInt = 0 := rfl
    refine ⟨fun at_ hnonneg hlt => ?_, fun at_ hnonneg hlast => ?_⟩
    · rw [lt_iff_toInt_lt] at hlt
      omega
    · omega
  · rw [heq] at hvalid
    have hlast : ∀ at_ : TimeCode, 0 ≤ at_.toInt → at_.toInt = duration.toInt - 1 →
        (clampProjectCurve curve duration).valueAt at_ = curve.valueAt at_ := by
      intro at_ _ hat
      obtain rfl : at_ = boundary := toInt_inj.mp (hat.trans hboundary.symm)
      rw [valueAt, heq, boundaryKey_value h htame at_ at_]
      exact valueAtKeys_last hvalid.ordered (getLast?_concat ..) (Int64.le_refl _)
    refine ⟨fun at_ hnonneg hlt hflat => ?_, hlast⟩
    rw [le_iff_toInt_le] at hlate
    rw [lt_iff_toInt_lt] at hlt
    by_cases hend : at_.toInt = duration.toInt - 1
    · exact hlast at_ hnonneg hend
    · rw [valueAt, heq]
      refine valueAtKeys_cut h htame hvalid ⟨key, hkey, lt_iff_toInt_lt.mpr (by omega)⟩ ?_ hflat
      exact lt_iff_toInt_lt.mpr (by omega)
  · rw [heq]
    exact .refl duration curve

end

end Cut

end Kinewright.Model
