import Mathlib.Algebra.Order.Ring.Int
import Kinewright.Lib.Fallible
import Kinewright.Lib.Grid

/-!
# Frame counts and frame rates

`time.rs`: frame positions are mapped between the time bases of a project and of a source with exact
integer arithmetic. Whole boundaries are mapped to the nearest frame, so adjacent ranges share their
boundary; offsets behind a boundary are mapped down.
-/

namespace Kinewright.Model

open Fallible Int64

/-- `TimeCode(i64)`: a frame count in the time base of the value around it. -/
abbrev TimeCode := Int64

/-- `i64::try_from`. -/
def tryFrom (n : ℤ) : Option TimeCode := if -2 ^ 63 ≤ n ∧ n < 2 ^ 63 then some (Int64.ofInt n) else none

/-- `TimeCode::checked_add`. -/
def checkedAdd (a b : TimeCode) : Option TimeCode := tryFrom (a.toInt + b.toInt)

/-- `TimeCode::checked_sub`. -/
def checkedSub (a b : TimeCode) : Option TimeCode := tryFrom (a.toInt - b.toInt)

/-- An `i128` result of a checked operation. -/
def checked128 (n : ℤ) : Option ℤ := if -2 ^ 127 ≤ n ∧ n < 2 ^ 127 then some n else none

variable {a : TimeCode}

theorem tryFrom_eq_some {n : ℤ} : tryFrom n = some a ↔ a.toInt = n := by
  unfold tryFrom
  by_cases h : -2 ^ 63 ≤ n ∧ n < 2 ^ 63
  · rw [if_pos h, Option.some.injEq, ← toInt_inj, toInt_ofInt_of_le h.1 h.2]
    exact eq_comm
  · rw [if_neg h]
    refine ⟨nofun, ?_⟩
    rintro rfl
    exact absurd ⟨a.le_toInt, a.toInt_lt⟩ h

/-- A value between two frame counts is a frame count. -/
theorem exists_tryFrom {n : ℤ} {b : TimeCode} (ha : a.toInt ≤ n) (hb : n ≤ b.toInt) :
    ∃ c, tryFrom n = some c ∧ c.toInt = n := by
  have hlower := a.le_toInt
  have hupper := b.toInt_lt
  refine ⟨Int64.ofInt n, ?_, toInt_ofInt_of_le (by omega) (by omega)⟩
  rw [tryFrom, if_pos ⟨by omega, by omega⟩]

/-- An integer in the range of frame counts is a frame count. -/
theorem exists_tryFrom_of_lt {n : ℤ} (hlow : -2 ^ 63 ≤ n) (hhigh : n < 2 ^ 63) :
    ∃ c, tryFrom n = some c ∧ c.toInt = n :=
  ⟨Int64.ofInt n, if_pos ⟨hlow, hhigh⟩, toInt_ofInt_of_le hlow hhigh⟩

theorem toInt_ofInt_between {low high : TimeCode} {n : ℤ} (hlow : low.toInt ≤ n) (hhigh : n ≤ high.toInt) :
    (Int64.ofInt n).toInt = n :=
  toInt_ofInt_of_le (by have := low.le_toInt; omega) (by have := high.toInt_lt; omega)

theorem checkedAdd_eq_some {b c : TimeCode} : checkedAdd a b = some c ↔ c.toInt = a.toInt + b.toInt := tryFrom_eq_some

theorem checkedSub_eq_some {b c : TimeCode} : checkedSub a b = some c ↔ c.toInt = a.toInt - b.toInt := tryFrom_eq_some

/-- A difference that is a frame count does not wrap. -/
theorem sub_eq_of_toInt {b c : TimeCode} (h : c.toInt = a.toInt - b.toInt) : a - b = c := by
  rw [← ofInt_toInt c, h, ofInt_sub, ofInt_toInt, ofInt_toInt]

/-- A difference of frames of the project does not wrap. -/
theorem toInt_sub_of_nonneg {b : TimeCode} (ha : 0 ≤ a.toInt) (hb : 0 ≤ b.toInt) :
    (a - b).toInt = a.toInt - b.toInt := by
  have hmax := a.toInt_lt
  have hmax' := b.toInt_lt
  obtain ⟨c, -, hc⟩ := exists_tryFrom_of_lt (n := a.toInt - b.toInt) (by omega) (by omega)
  rw [sub_eq_of_toInt hc, hc]

theorem checked128_natCast {n : ℕ} (h : n < 2 ^ 127) : checked128 n = some (n : ℤ) := if_pos ⟨by omega, by omega⟩

/-! ## Rates -/

/-- `Rational`: a frame rate. A rate that was read from a project file need not be reduced. -/
structure Rational where
  numerator : UInt32
  denominator : UInt32
deriving DecidableEq

inductive TimeMappingError
  | invalidRate (numerator denominator : UInt32)
  | negativeFrames (frames : TimeCode)
  | overflow
  | invalidRange (start stop : TimeCode)
  | inexactDuration (sourceStart projectDuration : TimeCode)
  | noCoveringSourceRange (projectDuration sourceDuration : TimeCode)
  | sourceTooShortToCover (projectDuration sourceDuration minimumSourceFrames : TimeCode)
deriving DecidableEq

namespace Rational

/-- `Rational::is_valid`. -/
def IsValid (rate : Rational) : Prop := rate.numerator ≠ 0 ∧ rate.denominator ≠ 0

instance (rate : Rational) : Decidable rate.IsValid := inferInstanceAs (Decidable (_ ∧ _))

/-- `Rational::new`: a reduced rate. -/
def new (numerator denominator : UInt32) : Except TimeMappingError Rational :=
  if numerator = 0 ∨ denominator = 0 then .error (.invalidRate numerator denominator)
  else
    let divisor := UInt32.ofNat (Nat.gcd numerator.toNat denominator.toNat)
    .ok { numerator := numerator / divisor, denominator := denominator / divisor }

end Rational

/-- `u32::checked_mul`. -/
def checkedMul32 (a b : UInt32) : Option UInt32 :=
  if a.toNat * b.toNat < 2 ^ 32 then some (UInt32.ofNat (a.toNat * b.toNat)) else none

/-- `speed_scaled_fps`: the rate at which a clip of that speed consumes its source. -/
def speedScaledFps (fps : Rational) (speedPercent : UInt32) : Except TimeMappingError Rational :=
  if speedPercent = 100 then .ok fps
  else do
    let numerator ← okOr .overflow (checkedMul32 fps.numerator speedPercent)
    let denominator ← okOr .overflow (checkedMul32 fps.denominator 100)
    Rational.new numerator denominator

/-! ## Mapping -/

inductive FrameRounding
  | floor
  | nearest
  | ceil
deriving DecidableEq

/-- `validate_rate`. -/
def validateRate (rate : Rational) : Except TimeMappingError Unit :=
  if rate.IsValid then .ok () else .error (.invalidRate rate.numerator rate.denominator)

/-- The rounded quotient of `map_frames_with_rounding`. -/
def FrameRounding.quotient (numerator denominator : ℤ) : FrameRounding → Except TimeMappingError ℤ
  | .floor => .ok (numerator / denominator)
  | .nearest => do
    let biased ← okOr .overflow (checked128 (numerator + denominator / 2))
    .ok (biased / denominator)
  | .ceil => do
    let biased ← okOr .overflow (checked128 (numerator + (denominator - 1)))
    .ok (biased / denominator)

/-- `map_frames_with_rounding`. -/
def mapFramesWithRounding (frames : TimeCode) (sourceFps projectFps : Rational)
    (rounding : FrameRounding) : Except TimeMappingError TimeCode := do
  validateRate sourceFps
  validateRate projectFps
  if frames.toInt < 0 then .error (.negativeFrames frames)
  else
    let value ← okOr .overflow (checked128 (frames.toInt * projectFps.numerator.toNat))
    let numerator ← okOr .overflow (checked128 (value * sourceFps.denominator.toNat))
    let denominator ← okOr .overflow
      (checked128 (sourceFps.numerator.toNat * projectFps.denominator.toNat))
    let mapped ← rounding.quotient numerator denominator
    okOr .overflow (tryFrom mapped)

/-- `map_frames`. -/
def mapFrames (frames : TimeCode) (sourceFps projectFps : Rational) : Except TimeMappingError TimeCode :=
  mapFramesWithRounding frames sourceFps projectFps .nearest

/-- `map_source_range_to_project`: both boundaries are mapped, then subtracted. -/
def mapSourceRangeToProject (start stop : TimeCode) (sourceFps projectFps : Rational) :
    Except TimeMappingError TimeCode :=
  if start.toInt < 0 ∨ stop.toInt ≤ start.toInt then .error (.invalidRange start stop)
  else do
    let mappedStart ← mapFrames start sourceFps projectFps
    let mappedStop ← mapFrames stop sourceFps projectFps
    okOr .overflow (checkedSub mappedStop mappedStart)

/-! ## What the mappings compute -/

/-- The grid map of a rounding. -/
def FrameRounding.map : FrameRounding → ℕ → ℕ → ℕ → ℕ
  | .floor => Grid.floor
  | .nearest => Grid.nearest
  | .ceil => Grid.ceil

/-- The numerator of the ratio that carries positions of the one rate to the other. -/
def Rational.scale (sourceFps projectFps : Rational) : ℕ := projectFps.numerator.toNat * sourceFps.denominator.toNat

namespace Rational

variable {rate sourceFps projectFps : Rational}

theorem IsValid.numerator_pos (h : rate.IsValid) : 0 < rate.numerator.toNat := by
  have hne : rate.numerator.toNat ≠ 0 := fun hzero => h.1 (UInt32.toNat_inj.mp hzero)
  omega

theorem IsValid.denominator_pos (h : rate.IsValid) : 0 < rate.denominator.toNat := by
  have hne : rate.denominator.toNat ≠ 0 := fun hzero => h.2 (UInt32.toNat_inj.mp hzero)
  omega

theorem IsValid.scale_pos (hs : sourceFps.IsValid) (hp : projectFps.IsValid) : 0 < sourceFps.scale projectFps :=
  Nat.mul_pos hp.numerator_pos hs.denominator_pos

theorem scale_le (sourceFps projectFps : Rational) : sourceFps.scale projectFps ≤ (2 ^ 32 - 1) * (2 ^ 32 - 1) := by
  have hnum := projectFps.numerator.toNat_lt
  have hden := sourceFps.denominator.toNat_lt
  exact Nat.mul_le_mul (by omega) (by omega)

end Rational

theorem validateRate_eq_ok {rate : Rational} : validateRate rate = .ok () ↔ rate.IsValid := by
  unfold validateRate
  by_cases h : rate.IsValid
  · simp
  · simp

variable {frames : TimeCode}

section

variable {sourceFps projectFps : Rational}

/-- A mapped frame is the grid's, unless it is not an `i64`. No `i128` operation overflows. -/
theorem mapFrames_eq (hs : sourceFps.IsValid)
    (hp : projectFps.IsValid) (hframes : 0 ≤ frames.toInt) (rounding : FrameRounding) :
    mapFramesWithRounding frames sourceFps projectFps rounding = okOr .overflow
      (tryFrom (rounding.map (sourceFps.scale projectFps) (projectFps.scale sourceFps) frames.toInt.toNat)) := by
  obtain ⟨n, hn⟩ := Int.eq_ofNat_of_zero_le hframes
  have hlt : n ≤ 2 ^ 63 - 1 := by
    have := frames.toInt_lt
    omega
  have hscaled := Nat.mul_le_mul hlt (Rational.scale_le sourceFps projectFps)
  have hstep := Rational.scale_le projectFps sourceFps
  have hpos := hp.scale_pos hs
  have hvalue : checked128 (frames.toInt * projectFps.numerator.toNat)
      = some ((n * projectFps.numerator.toNat : ℕ) : ℤ) := by
    have hnum := projectFps.numerator.toNat_lt
    have := Nat.mul_le_mul hlt (Nat.le_of_lt hnum)
    rw [hn]
    exact checked128_natCast (by omega)
  have hnumerator : checked128 (((n * projectFps.numerator.toNat : ℕ) : ℤ) * sourceFps.denominator.toNat)
      = some ((n * sourceFps.scale projectFps : ℕ) : ℤ) := by
    rw [← Int.natCast_mul, Nat.mul_assoc]
    exact checked128_natCast (by rw [← Rational.scale]; omega)
  have hdenominator : checked128 (sourceFps.numerator.toNat * projectFps.denominator.toNat)
      = some ((projectFps.scale sourceFps : ℕ) : ℤ) := by
    exact checked128_natCast (by rw [← Rational.scale]; omega)
  rw [mapFramesWithRounding, validateRate_eq_ok.mpr hs, ok_bind, validateRate_eq_ok.mpr hp, ok_bind,
    if_neg (by omega), hvalue, okOr_some, ok_bind, hnumerator, okOr_some, ok_bind, hdenominator,
    okOr_some, ok_bind, hn, Int.toNat_natCast]
  generalize sourceFps.scale projectFps = a at hscaled ⊢
  generalize projectFps.scale sourceFps = d at hstep hpos ⊢
  cases rounding with
  | floor => rw [FrameRounding.quotient, ok_bind, FrameRounding.map, Grid.floor, Int.natCast_ediv]
  | nearest =>
    rw [FrameRounding.quotient, show ((n * a : ℕ) : ℤ) + (d : ℤ) / 2 = ((n * a + d / 2 : ℕ) : ℤ) by omega,
      checked128_natCast (by omega), okOr_some, ok_bind, ok_bind, FrameRounding.map, Grid.nearest,
      Int.natCast_ediv]
  | ceil =>
    rw [FrameRounding.quotient, show ((n * a : ℕ) : ℤ) + ((d : ℤ) - 1) = ((n * a + (d - 1) : ℕ) : ℤ) by omega,
      checked128_natCast (by omega), okOr_some, ok_bind, ok_bind, FrameRounding.map, Grid.ceil,
      Int.natCast_ediv]

/-- What a mapped frame says of the rates and of the frame. -/
theorem mapFrames_ok {mapped : TimeCode} {rounding : FrameRounding}
    (h : mapFramesWithRounding frames sourceFps projectFps rounding = .ok mapped) :
    sourceFps.IsValid ∧ projectFps.IsValid ∧ 0 ≤ frames.toInt ∧
      mapped.toInt = rounding.map (sourceFps.scale projectFps) (projectFps.scale sourceFps)
        frames.toInt.toNat := by
  have hvalid := h
  rw [mapFramesWithRounding, bind_eq_ok] at hvalid
  obtain ⟨⟨⟩, hs, hvalid⟩ := hvalid
  obtain ⟨⟨⟩, hp, hvalid⟩ := bind_eq_ok.mp hvalid
  have hframes := (unless_eq_ok.mp hvalid).1
  rw [validateRate_eq_ok] at hs hp
  rw [mapFrames_eq hs hp (by omega), okOr_eq_ok, tryFrom_eq_some] at h
  exact ⟨hs, hp, by omega, h⟩

/-- A mapped range has the length between its mapped boundaries. -/
theorem mapSourceRange_ok {start stop duration : TimeCode}
    (h : mapSourceRangeToProject start stop sourceFps projectFps = .ok duration) :
    sourceFps.IsValid ∧ projectFps.IsValid ∧ 0 ≤ start.toInt ∧ start.toInt < stop.toInt ∧ duration.toInt
        = Grid.nearest (sourceFps.scale projectFps) (projectFps.scale sourceFps) stop.toInt.toNat
        - Grid.nearest (sourceFps.scale projectFps) (projectFps.scale sourceFps)
            start.toInt.toNat := by
  rw [mapSourceRangeToProject, unless_eq_ok, bind_eq_ok] at h
  obtain ⟨hrange, mappedStart, hstart, h⟩ := h
  obtain ⟨mappedStop, hstop, h⟩ := bind_eq_ok.mp h
  obtain ⟨hs, hp, -, hstart⟩ := mapFrames_ok hstart
  obtain ⟨-, -, -, hstop⟩ := mapFrames_ok hstop
  rw [okOr_eq_ok, checkedSub_eq_some, hstart, hstop] at h
  exact ⟨hs, hp, by omega, by omega, h⟩

/-- A range is mapped, exactly if its boundaries are. -/
theorem mapSourceRange_eq_ok {start stop duration : TimeCode} :
    mapSourceRangeToProject start stop sourceFps projectFps = .ok duration ↔
      (0 ≤ start.toInt ∧ start.toInt < stop.toInt) ∧ ∃ mappedStart mappedStop,
        mapFrames start sourceFps projectFps = .ok mappedStart ∧ mapFrames stop sourceFps projectFps = .ok mappedStop ∧
          duration.toInt = mappedStop.toInt - mappedStart.toInt := by
  simp only [mapSourceRangeToProject, unless_eq_ok, bind_eq_ok, okOr_eq_ok, checkedSub_eq_some, not_or, Int.not_lt,
    Int.not_le]
  constructor
  · rintro ⟨hrange, mappedStart, hstart, mappedStop, hstop, hduration⟩
    exact ⟨hrange, mappedStart, mappedStop, hstart, hstop, hduration⟩
  · rintro ⟨hrange, mappedStart, mappedStop, hstart, hstop, hduration⟩
    exact ⟨hrange, mappedStart, hstart, mappedStop, hstop, hduration⟩

end

/-- At the rate of the project a frame is mapped to itself. -/
theorem mapFrames_same {fps : Rational} (hfps : fps.IsValid) (hframes : 0 ≤ frames.toInt) :
    mapFrames frames fps fps = .ok frames := by
  rw [mapFrames, mapFrames_eq hfps hfps hframes, okOr_eq_ok, tryFrom_eq_some, FrameRounding.map,
    Grid.nearest_same (hfps.scale_pos hfps)]
  omega

/-- Mapped boundaries are in the order of the boundaries. -/
theorem mapFrames_mono {start stop mappedStart mappedStop : TimeCode} {sourceFps projectFps : Rational}
    (hstart : mapFrames start sourceFps projectFps = .ok mappedStart)
    (hstop : mapFrames stop sourceFps projectFps = .ok mappedStop) (hle : start.toInt ≤ stop.toInt) :
    0 ≤ mappedStart.toInt ∧ mappedStart.toInt ≤ mappedStop.toInt := by
  obtain ⟨-, -, -, hstart⟩ := mapFrames_ok hstart
  obtain ⟨-, -, -, hstop⟩ := mapFrames_ok hstop
  rw [hstart, hstop]
  refine ⟨Int.natCast_nonneg _, Int.ofNat_le.mpr (Grid.nearest_mono ?_)⟩
  omega

end Kinewright.Model
