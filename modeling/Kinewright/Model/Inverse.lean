import Kinewright.Lib.Bisect
import Kinewright.Model.Time

/-!
# The source range of a project duration

`time.rs`: the end of a source range that is mapped to a duration. Three ends beside an estimate are tried, and the least
end is found by halving the range up to the one that is exact.
-/

namespace Kinewright.Model

open Fallible Grid Int64 TimeMappingError

/-- `i64::saturating_add` of one. -/
def saturatingSucc (frames : TimeCode) : TimeCode := (checkedAdd frames 1).getD frames

/-- The source range is mapped to the duration. -/
def isExact (sourceStart projectDuration : TimeCode) (sourceFps projectFps : Rational) (stop : TimeCode) : Bool :=
  (mapSourceRangeToProject sourceStart stop sourceFps projectFps).toOption = some projectDuration

/-- The source range is mapped to the duration or a longer one. -/
def reaches (sourceStart projectDuration : TimeCode) (sourceFps projectFps : Rational) (stop : ℤ) : Bool :=
  (mapSourceRangeToProject sourceStart (Int64.ofInt stop) sourceFps projectFps).toOption.any fun mapped =>
    decide (projectDuration ≤ mapped)

/-- The ends that are tried: those beside the estimate. -/
def candidateEnds (sourceStart estimate : TimeCode) : List TimeCode :=
  [-1, 0, 1].filterMap fun offset => do
    let frames ← checkedAdd estimate offset
    checkedAdd frames sourceStart

/-- The first of them that is exact. -/
def exactEnd (sourceStart projectDuration estimate : TimeCode) (sourceFps projectFps : Rational) : Option TimeCode :=
  (candidateEnds sourceStart estimate).find? fun stop =>
    decide (sourceStart < stop) && isExact sourceStart projectDuration sourceFps projectFps stop

/-- The end that is found by halving the range up to an exact end. -/
def firstEnd (sourceStart projectDuration stop : TimeCode) (sourceFps projectFps : Rational) : TimeCode :=
  let low := saturatingSucc sourceStart
  Int64.ofInt (Bisect.first (reaches sourceStart projectDuration sourceFps projectFps)
    (stop.toInt - low.toInt).toNat low.toInt stop.toInt)

/-- `map_project_duration_to_source`. -/
def mapProjectDurationToSource (sourceStart projectDuration : TimeCode) (sourceFps projectFps : Rational) :
    Except TimeMappingError TimeCode := do
  validateRate sourceFps
  validateRate projectFps
  refuse (sourceStart.toInt < 0) (.negativeFrames sourceStart)
  refuse (projectDuration.toInt < 0) (.negativeFrames projectDuration)
  refuse (projectDuration.toInt = 0) (.invalidRange sourceStart sourceStart)
  let estimate ← mapFrames projectDuration projectFps sourceFps
  let stop ← okOr (.inexactDuration sourceStart projectDuration)
    (exactEnd sourceStart projectDuration estimate sourceFps projectFps)
  .ok (firstEnd sourceStart projectDuration stop sourceFps projectFps)

variable {sourceStart projectDuration estimate stop : TimeCode} {sourceFps projectFps : Rational}

/-! ## Exact ends -/

theorem isExact_eq_true : isExact sourceStart projectDuration sourceFps projectFps stop = true ↔
    mapSourceRangeToProject sourceStart stop sourceFps projectFps = .ok projectDuration := by
  rw [isExact]
  cases mapSourceRangeToProject sourceStart stop sourceFps projectFps with
  | error error | ok mapped => simp [Except.toOption]

/-- The position that a boundary of the source is nearest to. -/
def carried (sourceFps projectFps : Rational) (frame : TimeCode) : ℕ :=
  nearest (sourceFps.scale projectFps) (projectFps.scale sourceFps) frame.toInt.toNat

theorem mapFrames_eq_ok (hs : sourceFps.IsValid) (hp : projectFps.IsValid) {frame mapped : TimeCode}
    (hframe : 0 ≤ frame.toInt) :
    mapFrames frame sourceFps projectFps = .ok mapped ↔ mapped.toInt = carried sourceFps projectFps frame := by
  rw [mapFrames, mapFrames_eq hs hp hframe, okOr_eq_ok, tryFrom_eq_some]
  rfl

/-- An end is exact if the two boundaries are carried to frames that are the duration apart. -/
theorem exactEnd_iff (hs : sourceFps.IsValid) (hp : projectFps.IsValid) (hstart : 0 ≤ sourceStart.toInt)
    (hduration : 0 < projectDuration.toInt) :
    mapSourceRangeToProject sourceStart stop sourceFps projectFps = .ok projectDuration ↔
      0 ≤ stop.toInt ∧ carried sourceFps projectFps stop = carried sourceFps projectFps sourceStart
        + projectDuration.toInt.toNat ∧ carried sourceFps projectFps stop < 2 ^ 63 := by
  rw [mapSourceRange_eq_ok]
  constructor
  · rintro ⟨⟨-, hlt⟩, first, last, hfirst, hlast, hlength⟩
    rw [mapFrames_eq_ok hs hp (by omega)] at hfirst hlast
    have := last.toInt_lt
    exact ⟨by omega, by omega, by omega⟩
  · rintro ⟨hstop, hexact, hfits⟩
    obtain ⟨first, -, hfirst⟩ := exists_tryFrom_of_lt (n := carried sourceFps projectFps sourceStart) (by omega) (by omega)
    obtain ⟨last, -, hlast⟩ := exists_tryFrom_of_lt (n := carried sourceFps projectFps stop) (by omega) (by omega)
    refine ⟨⟨hstart, ?_⟩, first, last, (mapFrames_eq_ok hs hp hstart).mpr hfirst, (mapFrames_eq_ok hs hp hstop).mpr hlast,
      by omega⟩
    -- an end at the start or before it is carried no farther
    by_contra hle
    have hmono : carried sourceFps projectFps stop ≤ carried sourceFps projectFps sourceStart :=
      nearest_mono (by omega)
    omega

theorem carried_mono (hle : sourceStart.toInt ≤ stop.toInt) :
    carried sourceFps projectFps sourceStart ≤ carried sourceFps projectFps stop :=
  nearest_mono (by omega)

/-- Below another frame count the successor does not saturate. -/
theorem toInt_saturatingSucc (h : sourceStart < stop) : (saturatingSucc sourceStart).toInt = sourceStart.toInt + 1 := by
  rw [lt_iff_toInt_lt] at h
  have := stop.toInt_lt
  have := sourceStart.le_toInt
  obtain ⟨next, hnext, hvalue⟩ := exists_tryFrom_of_lt (n := sourceStart.toInt + 1) (by omega) (by omega)
  have hsum : checkedAdd sourceStart 1 = some next := hnext
  rw [saturatingSucc, hsum]
  exact hvalue

/-- Up to an exact end, a range reaches the duration if its end is carried far enough. -/
theorem reaches_iff (hs : sourceFps.IsValid) (hp : projectFps.IsValid) (hstart : 0 ≤ sourceStart.toInt) {n : ℤ}
    (hn : sourceStart.toInt < n) (hstop : n ≤ stop.toInt) (hfits : carried sourceFps projectFps stop < 2 ^ 63) :
    reaches sourceStart projectDuration sourceFps projectFps n = true ↔
      projectDuration.toInt + carried sourceFps projectFps sourceStart ≤ carried sourceFps projectFps (Int64.ofInt n) := by
  have hframe := toInt_ofInt_between hn.le hstop
  have hlower : carried sourceFps projectFps sourceStart ≤ carried sourceFps projectFps (Int64.ofInt n) :=
    carried_mono (by omega)
  have hupper : carried sourceFps projectFps (Int64.ofInt n) ≤ carried sourceFps projectFps stop :=
    carried_mono (by omega)
  obtain ⟨first, -, hfirst⟩ := exists_tryFrom_of_lt (n := carried sourceFps projectFps sourceStart) (by omega) (by omega)
  obtain ⟨last, -, hlast⟩ := exists_tryFrom_of_lt (n := carried sourceFps projectFps (Int64.ofInt n)) (by omega) (by omega)
  obtain ⟨mapped, -, hmapped⟩ := exists_tryFrom_of_lt (n := last.toInt - first.toInt) (by omega) (by omega)
  have hrange : mapSourceRangeToProject sourceStart (Int64.ofInt n) sourceFps projectFps = .ok mapped :=
    mapSourceRange_eq_ok.mpr ⟨⟨hstart, by omega⟩, first, last, (mapFrames_eq_ok hs hp hstart).mpr hfirst,
      (mapFrames_eq_ok hs hp (by omega)).mpr hlast, hmapped⟩
  rw [reaches, hrange]
  change decide (projectDuration ≤ mapped) = true ↔ _
  rw [decide_eq_true_eq, le_iff_toInt_le]
  omega

/-! ## The least exact end -/

/-- An end from which on the ranges are too long. -/
structure LeastEnd (sourceStart projectDuration : TimeCode) (sourceFps projectFps : Rational) (stop : TimeCode) : Prop where
  exact : mapSourceRangeToProject sourceStart stop sourceFps projectFps = .ok projectDuration
  least : ∀ other, mapSourceRangeToProject sourceStart other sourceFps projectFps = .ok projectDuration → stop ≤ other

/-- Halving the range up to an exact end finds the least one. -/
theorem leastEnd_first (hs : sourceFps.IsValid) (hp : projectFps.IsValid) (hstart : 0 ≤ sourceStart.toInt)
    (hduration : 0 < projectDuration.toInt) (hlt : sourceStart < stop)
    (hexact : mapSourceRangeToProject sourceStart stop sourceFps projectFps = .ok projectDuration) :
    LeastEnd sourceStart projectDuration sourceFps projectFps
      (firstEnd sourceStart projectDuration stop sourceFps projectFps) := by
  obtain ⟨-, hcarried, hfits⟩ := (exactEnd_iff hs hp hstart hduration).mp hexact
  rw [firstEnd, toInt_saturatingSucc hlt]
  rw [lt_iff_toInt_lt] at hlt
  have hreaches {n : ℤ} (hn : sourceStart.toInt + 1 ≤ n) (hstop : n ≤ stop.toInt) :=
    @reaches_iff sourceStart projectDuration stop _ _ hs hp hstart n (Int.lt_of_add_one_le hn) hstop hfits
  have hup : Bisect.Upward (reaches sourceStart projectDuration sourceFps projectFps) (sourceStart.toInt + 1) stop.toInt := by
    intro x y hx hxy hy hholds
    have hmono : carried sourceFps projectFps (Int64.ofInt x) ≤ carried sourceFps projectFps (Int64.ofInt y) := by
      refine carried_mono ?_
      rw [toInt_ofInt_between (Int.le_of_lt hx) (hxy.trans hy), toInt_ofInt_between ((Int.le_of_lt hx).trans hxy) hy]
      exact hxy
    rw [hreaches hx (by omega)] at hholds
    rw [hreaches (by omega) hy]
    omega
  have hhigh : reaches sourceStart projectDuration sourceFps projectFps stop.toInt = true := by
    rw [hreaches (by omega) le_rfl, ofInt_toInt]
    omega
  have hfirst := Bisect.isFirst (stop.toInt - (sourceStart.toInt + 1)).toNat (by omega) (by omega) hup hhigh
  obtain ⟨hlower, hupper, hsound, hleast⟩ := hfirst
  generalize Bisect.first _ _ _ _ = found at hlower hupper hsound hleast
  have hfound := toInt_ofInt_between (Int.le_of_lt hlower) hupper
  have hbelow : carried sourceFps projectFps (Int64.ofInt found) ≤ carried sourceFps projectFps stop :=
    carried_mono (by omega)
  rw [hreaches hlower hupper] at hsound
  refine ⟨(exactEnd_iff hs hp hstart hduration).mpr ⟨by omega, by omega, by omega⟩, fun other hother => ?_⟩
  obtain ⟨-, hcarried', -⟩ := (exactEnd_iff hs hp hstart hduration).mp hother
  obtain ⟨-, -, -, hafter, -⟩ := mapSourceRange_ok hother
  rw [le_iff_toInt_le]
  by_contra hshort
  have hmiss := hleast other.toInt (by omega) (by omega)
  have hholds := (hreaches (n := other.toInt) (by omega) (by omega)).mpr (by rw [ofInt_toInt]; omega)
  rw [hmiss] at hholds
  cases hholds

/-- What the function computes of valid arguments. -/
theorem mapProjectDuration_eq (hs : sourceFps.IsValid) (hp : projectFps.IsValid) (hstart : 0 ≤ sourceStart.toInt)
    (hduration : 0 < projectDuration.toInt) (hestimate : mapFrames projectDuration projectFps sourceFps = .ok estimate) :
    mapProjectDurationToSource sourceStart projectDuration sourceFps projectFps
      = (okOr (.inexactDuration sourceStart projectDuration)
          (exactEnd sourceStart projectDuration estimate sourceFps projectFps)).map
        (firstEnd sourceStart projectDuration · sourceFps projectFps) := by
  have hnonneg : refuse (sourceStart.toInt < 0) (negativeFrames sourceStart) = .ok () := if_neg (by omega)
  have hlong : refuse (projectDuration.toInt < 0) (negativeFrames projectDuration) = .ok () := if_neg (by omega)
  have hsome : refuse (projectDuration.toInt = 0) (invalidRange sourceStart sourceStart) = .ok () := if_neg (by omega)
  rw [mapProjectDurationToSource, validateRate_eq_ok.mpr hs, validateRate_eq_ok.mpr hp, hnonneg, hlong, hsome, hestimate]
  rfl

/-- The end that is returned is the least exact one. -/
theorem leastEnd_of_ok (h : mapProjectDurationToSource sourceStart projectDuration sourceFps projectFps = .ok stop) :
    LeastEnd sourceStart projectDuration sourceFps projectFps stop := by
  simp only [mapProjectDurationToSource, bind_eq_ok, refuse_eq_ok, okOr_eq_ok, Except.ok.injEq] at h
  obtain ⟨⟨⟩, hs, ⟨⟩, hp, ⟨⟩, hstart, ⟨⟩, hnonneg, ⟨⟩, hne, estimate, -, near, hnear, rfl⟩ := h
  rw [validateRate_eq_ok] at hs hp
  have hfound := List.find?_some hnear
  rw [Bool.and_eq_true, decide_eq_true_eq, isExact_eq_true] at hfound
  exact leastEnd_first hs hp (by omega) (by omega) hfound.1 hfound.2

/-- The source start and the scaled duration and two are a frame count together. -/
def FitsFrames (sourceStart projectDuration : TimeCode) (sourceFps projectFps : Rational) : Prop :=
  (sourceStart.toInt.toNat + 2) * sourceFps.scale projectFps + projectDuration.toInt.toNat * projectFps.scale sourceFps
    < 2 ^ 63 * sourceFps.scale projectFps

theorem FitsFrames.floor_lt (h : FitsFrames sourceStart projectDuration sourceFps projectFps) :
    sourceStart.toInt.toNat + 2
      + floor (projectFps.scale sourceFps) (sourceFps.scale projectFps) projectDuration.toInt.toNat < 2 ^ 63 := by
  have hfloor : floor (projectFps.scale sourceFps) (sourceFps.scale projectFps) projectDuration.toInt.toNat
      * sourceFps.scale projectFps ≤ projectDuration.toInt.toNat * projectFps.scale sourceFps := Nat.div_mul_le_self _ _
  refine Nat.lt_of_mul_lt_mul_right (a := sourceFps.scale projectFps) ?_
  rw [Nat.add_mul]
  rw [FitsFrames] at h
  omega

theorem mem_candidateEnds {near : TimeCode} (hstart : 0 ≤ sourceStart.toInt) (hestimate : 0 ≤ estimate.toInt)
    (hlower : sourceStart.toInt + estimate.toInt ≤ near.toInt + 1)
    (hupper : near.toInt ≤ sourceStart.toInt + estimate.toInt + 1) : near ∈ candidateEnds sourceStart estimate := by
  have hmax := near.toInt_lt
  have htried (offset : TimeCode) (hoffset : offset ∈ [-1, 0, (1 : TimeCode)])
      (hsum : near.toInt = estimate.toInt + offset.toInt + sourceStart.toInt) (hlow : -1 ≤ offset.toInt) :
      near ∈ candidateEnds sourceStart estimate := by
    obtain ⟨frames, hframes, hvalue⟩ := exists_tryFrom_of_lt (n := estimate.toInt + offset.toInt) (by omega) (by omega)
    refine List.mem_filterMap.mpr ⟨offset, hoffset, ?_⟩
    have hfirst : checkedAdd estimate offset = some frames := hframes
    rw [hfirst]
    exact checkedAdd_eq_some.mpr (by omega)
  have hcases : near.toInt = estimate.toInt + -1 + sourceStart.toInt ∨ near.toInt = estimate.toInt + 0 + sourceStart.toInt ∨
      near.toInt = estimate.toInt + 1 + sourceStart.toInt := by omega
  rcases hcases with hsum | hsum | hsum
  · exact htried (-1) (by simp) hsum (by decide)
  · exact htried 0 (by simp) hsum (by decide)
  · exact htried 1 (by simp) hsum (by decide)

section

variable (hs : sourceFps.IsValid) (hp : projectFps.IsValid)

include hs hp

theorem exists_estimate (hduration : 0 < projectDuration.toInt)
    (hfits : FitsFrames sourceStart projectDuration sourceFps projectFps) :
    ∃ estimate, mapFrames projectDuration projectFps sourceFps = .ok estimate ∧ estimate.toInt
      = nearest (projectFps.scale sourceFps) (sourceFps.scale projectFps) projectDuration.toInt.toNat := by
  have hfloor := hfits.floor_lt
  have hnear := nearest_le_floor_add_one (a := projectFps.scale sourceFps) (x := projectDuration.toInt.toNat)
    (hs.scale_pos hp)
  obtain ⟨estimate, -, hvalue⟩ := exists_tryFrom_of_lt
    (n := nearest (projectFps.scale sourceFps) (sourceFps.scale projectFps) projectDuration.toInt.toNat)
    (by omega) (by omega)
  exact ⟨estimate, (mapFrames_eq_ok hp hs (by omega)).mpr hvalue, hvalue⟩

/-- If some end is exact, then one of those that are tried is. -/
theorem exists_exactEnd (hstart : 0 ≤ sourceStart.toInt)
    (hduration : 0 < projectDuration.toInt) (hfits : FitsFrames sourceStart projectDuration sourceFps projectFps)
    (hestimate : estimate.toInt
      = nearest (projectFps.scale sourceFps) (sourceFps.scale projectFps) projectDuration.toInt.toNat)
    (hexact : mapSourceRangeToProject sourceStart stop sourceFps projectFps = .ok projectDuration) :
    ∃ near, exactEnd sourceStart projectDuration estimate sourceFps projectFps = some near := by
  obtain ⟨-, hcarried, hcarriedFits⟩ := (exactEnd_iff hs hp hstart hduration).mp hexact
  have hfloor := hfits.floor_lt
  have hmax := stop.toInt_lt
  obtain ⟨near, hnear, hwithin, hlower, hupper⟩ := exact_near (hs.scale_pos hp) (hp.scale_pos hs) hcarried
  obtain ⟨end_, -, hvalue⟩ := exists_tryFrom_of_lt (n := near) (by omega) (by omega)
  have hend : carried sourceFps projectFps end_ = carried sourceFps projectFps sourceStart + projectDuration.toInt.toNat := by
    rw [carried, hvalue]
    exact hnear
  have hexactEnd : mapSourceRangeToProject sourceStart end_ sourceFps projectFps = .ok projectDuration :=
    (exactEnd_iff hs hp hstart hduration).mpr ⟨by omega, hend, by omega⟩
  have hmem : end_ ∈ candidateEnds sourceStart estimate := mem_candidateEnds hstart (by omega) (by omega) (by omega)
  rw [exactEnd, ← Option.isSome_iff_exists, List.find?_isSome]
  refine ⟨end_, hmem, ?_⟩
  rw [Bool.and_eq_true, decide_eq_true_eq, isExact_eq_true]
  obtain ⟨-, -, -, hafter, -⟩ := mapSourceRange_ok hexactEnd
  exact ⟨lt_iff_toInt_lt.mpr hafter, hexactEnd⟩

/-- An end is found if one is exact. -/
theorem exists_mapProjectDuration (hstart : 0 ≤ sourceStart.toInt)
    (hduration : 0 < projectDuration.toInt) (hfits : FitsFrames sourceStart projectDuration sourceFps projectFps)
    (hexact : mapSourceRangeToProject sourceStart stop sourceFps projectFps = .ok projectDuration) :
    ∃ found, mapProjectDurationToSource sourceStart projectDuration sourceFps projectFps = .ok found := by
  obtain ⟨estimate, hestimate, hvalue⟩ := exists_estimate hs hp hduration hfits
  obtain ⟨near, hnear⟩ := exists_exactEnd hs hp hstart hduration hfits hvalue hexact
  rw [mapProjectDuration_eq hs hp hstart hduration hestimate, hnear]
  exact ⟨_, rfl⟩

/-- A duration that is refused is refused as inexact. -/
theorem mapProjectDuration_refused (hstart : 0 ≤ sourceStart.toInt)
    (hduration : 0 < projectDuration.toInt) (hfits : FitsFrames sourceStart projectDuration sourceFps projectFps)
    (hnone : ∀ stop, mapProjectDurationToSource sourceStart projectDuration sourceFps projectFps ≠ .ok stop) :
    mapProjectDurationToSource sourceStart projectDuration sourceFps projectFps
      = .error (.inexactDuration sourceStart projectDuration) := by
  obtain ⟨estimate, hestimate, -⟩ := exists_estimate hs hp hduration hfits
  rw [mapProjectDuration_eq hs hp hstart hduration hestimate] at hnone ⊢
  cases hnear : exactEnd sourceStart projectDuration estimate sourceFps projectFps with
  | none => rfl
  | some near =>
    rw [hnear] at hnone
    exact absurd rfl (hnone _)

end

/-- The function is the inverse of the mapping of ranges: it returns the least end that is exact, and is refused if none
is. -/
theorem mapProjectDuration_inverse (hs : sourceFps.IsValid) (hp : projectFps.IsValid) (hstart : 0 ≤ sourceStart.toInt)
    (hduration : 1 ≤ projectDuration.toInt) (hfits : FitsFrames sourceStart projectDuration sourceFps projectFps) :
    ((∃ stop, mapProjectDurationToSource sourceStart projectDuration sourceFps projectFps = .ok stop) ↔
      ∃ stop, mapSourceRangeToProject sourceStart stop sourceFps projectFps = .ok projectDuration) ∧
    (∀ stop, mapProjectDurationToSource sourceStart projectDuration sourceFps projectFps = .ok stop →
      LeastEnd sourceStart projectDuration sourceFps projectFps stop) ∧
    ((¬ ∃ stop, mapSourceRangeToProject sourceStart stop sourceFps projectFps = .ok projectDuration) →
      mapProjectDurationToSource sourceStart projectDuration sourceFps projectFps
        = .error (.inexactDuration sourceStart projectDuration)) := by
  refine ⟨⟨?_, ?_⟩, fun stop h => leastEnd_of_ok h, fun hnone => ?_⟩
  · rintro ⟨stop, h⟩
    exact ⟨stop, (leastEnd_of_ok h).exact⟩
  · rintro ⟨stop, hexact⟩
    exact exists_mapProjectDuration hs hp hstart hduration hfits hexact
  · refine mapProjectDuration_refused hs hp hstart hduration hfits fun stop h => ?_
    exact hnone ⟨stop, (leastEnd_of_ok h).exact⟩

/-- From 60 to 24 frames a second the ends 2 and 3 are exact. -/
theorem mapProjectDuration_inverse_sixty : LeastEnd 1 1 ⟨60, 1⟩ ⟨24, 1⟩ 2 := by
  have hfits : FitsFrames 1 1 ⟨60, 1⟩ ⟨24, 1⟩ := by
    rw [FitsFrames]
    decide +kernel
  have hfound : mapProjectDurationToSource 1 1 ⟨60, 1⟩ ⟨24, 1⟩ = .ok 2 := by decide +kernel
  exact (mapProjectDuration_inverse (by decide) (by decide) (by decide) (by decide) hfits).2.1 2 hfound

end Kinewright.Model
