import Kinewright.Model.Document
import Kinewright.Model.Inverse

/-!
# Source ranges that cover a project duration

`time.rs`: a source range that is mapped to exactly a duration and has the sample frames for it. The starts of one period
of the two rates are tried, each with the exact ends of its run.
-/

namespace Kinewright.Model

open Fallible Int64 List Grid

/-! ## Sample frames -/

/-- `u128::saturating_mul`. -/
def saturatingMul (a b : ℕ) : ℕ := min (a * b) (2 ^ 128 - 1)

/-- `frame_sample_position`. -/
def frameSamplePosition (frame : TimeCode) (sampleRate : UInt32) (fps : Rational) : ℕ :=
  if frame.toInt ≤ 0 then 0
  else saturatingMul (saturatingMul frame.toInt.toNat sampleRate.toNat) fps.denominator.toNat / fps.numerator.toNat

/-- `u128::div_ceil`. -/
def divCeil (n d : ℕ) : ℕ := n / d + if n % d = 0 then 0 else 1

/-- `required_sample_frames`. -/
def requiredSampleFrames (projectDuration : TimeCode) (sampleRate : UInt32) (fps : Rational) : ℕ :=
  if projectDuration.toInt ≤ 0 then 0
  else divCeil (saturatingMul (saturatingMul projectDuration.toInt.toNat sampleRate.toNat) fps.denominator.toNat)
    fps.numerator.toNat

/-- The sample frames of a source range. -/
def suppliedSampleFrames (start stop : TimeCode) (sampleRate : UInt32) (sourceFps : Rational) : ℕ :=
  frameSamplePosition stop sampleRate sourceFps - frameSamplePosition start sampleRate sourceFps

/-- The source frames without which no range has the sample frames. -/
def minimumSourceFrames (required : ℕ) (sampleRate : UInt32) (sourceFps : Rational) : TimeCode :=
  (tryFrom (divCeil (saturatingMul required sourceFps.numerator.toNat)
    (saturatingMul sampleRate.toNat sourceFps.denominator.toNat))).getD Int64.maxValue

/-! ## Starts -/

/-- `MAX_PHASE_CANDIDATES`. -/
def maxPhaseCandidates : ℕ := 4096

/-- The number of starts after which both roundings repeat. -/
def combinedPeriod (sourceFps projectFps : Rational) (sampleRate : UInt32) : ℕ :=
  let mapPeriod := period (sourceFps.scale projectFps) (projectFps.scale sourceFps)
  let samplePeriod := period (sampleRate.toNat * sourceFps.denominator.toNat) sourceFps.numerator.toNat
  min (mapPeriod / Nat.gcd mapPeriod samplePeriod * samplePeriod) (2 ^ 127 - 1)

/-- The number of starts that are tried. -/
def phaseCandidates (sourceFps projectFps : Rational) (sampleRate : UInt32) : ℕ :=
  max 1 (min (min (combinedPeriod sourceFps projectFps sampleRate) (2 ^ 63 - 1)) maxPhaseCandidates)

/-! ## The search -/

/-- What a covering range is searched for. -/
structure Gap where
  projectDuration : TimeCode
  sourceFps : Rational
  projectFps : Rational
  sourceDuration : TimeCode
  sampleRate : UInt32

namespace Gap

variable (gap : Gap)

/-- The sample frames that the gap demands. -/
def required : ℕ := requiredSampleFrames gap.projectDuration gap.sampleRate gap.projectFps

/-- The walk up the run of exact ends, to the first one that covers. -/
def coveringEnd (start : TimeCode) : ℕ → TimeCode → Option TimeCode
  | 0, _ => none
  | fuel + 1, stop => if gap.sourceDuration < stop then none
    else if gap.required ≤ suppliedSampleFrames start stop gap.sampleRate gap.sourceFps then some stop
    else let next := saturatingSucc stop
      if next ≤ stop ∨ isExact start gap.projectDuration gap.sourceFps gap.projectFps next = false then none
      else coveringEnd start fuel next

/-- The walk has a step for each frame of the source. -/
def coveringFrom (start smallest : TimeCode) : Option TimeCode :=
  gap.coveringEnd start (gap.sourceDuration.toInt - smallest.toInt + 1).toNat smallest

/-- The sweep over the starts. -/
def sweep (anyExact : Bool) : List TimeCode → Except TimeMappingError FrameRange
  | [] => .error (if anyExact then .noCoveringSourceRange gap.projectDuration gap.sourceDuration
      else .inexactDuration 0 gap.projectDuration)
  | start :: starts => match mapProjectDurationToSource start gap.projectDuration gap.sourceFps gap.projectFps with
    | .error _ => sweep anyExact starts
    | .ok smallest => match gap.coveringFrom start smallest with
      | some stop => .ok { start, stop }
      | none => sweep true starts

/-- The starts of the sweep. -/
def starts : List TimeCode :=
  (List.range (phaseCandidates gap.sourceFps gap.projectFps gap.sampleRate)).map Int64.ofNat

/-- `covering_source_range_for_project_duration`. -/
def coveringSourceRange : Except TimeMappingError FrameRange := do
  validateRate gap.sourceFps
  validateRate gap.projectFps
  let _ ← Rational.new gap.sampleRate 1
  refuse (gap.projectDuration.toInt ≤ 0) (.invalidRange 0 gap.projectDuration)
  refuse (gap.sourceDuration.toInt ≤ 0) (.invalidRange 0 gap.sourceDuration)
  let minimum := minimumSourceFrames gap.required gap.sampleRate gap.sourceFps
  refuse (gap.sourceDuration < minimum) (.sourceTooShortToCover gap.projectDuration gap.sourceDuration minimum)
  gap.sweep false gap.starts

end Gap

/-! ## Positions of samples -/

variable {start stop other smallest found : TimeCode} {sampleRate : UInt32} {fps : Rational}

theorem saturatingMul_eq {a b : ℕ} (h : a * b ≤ 2 ^ 128 - 1) : saturatingMul a b = a * b := Nat.min_eq_left h

/-- Nothing saturates between a frame and its samples. -/
theorem frameSamplePosition_eq (hstart : 0 ≤ start.toInt) : frameSamplePosition start sampleRate fps
    = floor (sampleRate.toNat * fps.denominator.toNat) fps.numerator.toNat start.toInt.toNat := by
  obtain ⟨frame, hframe⟩ := Int.eq_ofNat_of_zero_le hstart
  have hmax := start.toInt_lt
  have hrate := sampleRate.toNat_lt
  have hden := fps.denominator.toNat_lt
  rw [frameSamplePosition, hframe, Int.toNat_natCast]
  by_cases hzero : frame = 0
  · rw [if_pos (by omega), hzero, floor, Nat.zero_mul, Nat.zero_div]
  · have hfirst : frame * sampleRate.toNat ≤ (2 ^ 63 - 1) * (2 ^ 32 - 1) := Nat.mul_le_mul (by omega) (by omega)
    have hsecond : frame * sampleRate.toNat * fps.denominator.toNat ≤ (2 ^ 63 - 1) * (2 ^ 32 - 1) * (2 ^ 32 - 1) :=
      Nat.mul_le_mul hfirst (by omega)
    have hscaled : saturatingMul frame sampleRate.toNat = frame * sampleRate.toNat := saturatingMul_eq (by omega)
    rw [if_neg (by omega), hscaled, saturatingMul_eq (by omega), floor, Nat.mul_assoc]

theorem frameSamplePosition_mono (hstart : 0 ≤ start.toInt) (hle : start.toInt ≤ stop.toInt) :
    frameSamplePosition start sampleRate fps ≤ frameSamplePosition stop sampleRate fps := by
  rw [frameSamplePosition_eq hstart, frameSamplePosition_eq (hstart.trans hle)]
  exact floor_mono (by omega)

theorem mul_lt_of_lt_divCeil {x n d : ℕ} (hd : 0 < d) (h : x < divCeil n d) : x * d < n := by
  have hsplit := Nat.div_add_mod n d
  have hle : x * d ≤ d * (n / d) := by
    rw [Nat.mul_comm]
    apply Nat.mul_le_mul_left
    rw [divCeil] at h
    split at h
    · omega
    · omega
  by_cases hrest : n % d = 0
  · rw [divCeil, if_pos hrest] at h
    have hlt : (x + 1) * d ≤ n / d * d := Nat.mul_le_mul_right d h
    rw [Nat.add_mul, Nat.mul_comm (n / d)] at hlt
    omega
  · omega

/-- A source that is shorter than the minimum has too few samples in all. -/
theorem position_lt_required {required : ℕ} (hrate : sampleRate ≠ 0) (hfps : fps.IsValid) (hstop : 0 ≤ stop.toInt)
    (h : stop < minimumSourceFrames required sampleRate fps) : frameSamplePosition stop sampleRate fps < required := by
  have hpos : 0 < sampleRate.toNat * fps.denominator.toNat := by
    have hne : sampleRate.toNat ≠ 0 := fun hzero => hrate (UInt32.toNat_inj.mp hzero)
    exact Nat.mul_pos (by omega) hfps.denominator_pos
  have hwide : sampleRate.toNat * fps.denominator.toNat ≤ (2 ^ 32 - 1) * (2 ^ 32 - 1) := by
    have hmax := sampleRate.toNat_lt
    have hmax' := fps.denominator.toNat_lt
    exact Nat.mul_le_mul (by omega) (by omega)
  have hminimum : (minimumSourceFrames required sampleRate fps).toInt ≤ divCeil
      (saturatingMul required fps.numerator.toNat) (saturatingMul sampleRate.toNat fps.denominator.toNat) := by
    rw [minimumSourceFrames]
    generalize divCeil _ _ = minimum
    cases hfound : tryFrom (minimum : ℤ) with
    | some frames => exact le_of_eq (tryFrom_eq_some.mp hfound)
    | none =>
      by_contra hlt
      obtain ⟨frames, hframes, -⟩ := exists_tryFrom_of_lt (n := (minimum : ℤ)) (by omega) (by
        have hmax : (Int64.maxValue).toInt = 2 ^ 63 - 1 := by decide
        rw [Option.getD_none] at hlt
        omega)
      rw [hfound] at hframes
      cases hframes
  rw [lt_iff_toInt_lt] at h
  have hsame : saturatingMul sampleRate.toNat fps.denominator.toNat = sampleRate.toNat * fps.denominator.toNat :=
    saturatingMul_eq (by omega)
  have hle : saturatingMul required fps.numerator.toNat ≤ required * fps.numerator.toNat := Nat.min_le_left _ _
  rw [hsame] at hminimum
  have hlt : stop.toInt.toNat * (sampleRate.toNat * fps.denominator.toNat) < saturatingMul required fps.numerator.toNat :=
    mul_lt_of_lt_divCeil hpos (by omega)
  rw [frameSamplePosition_eq hstop]
  exact Nat.div_lt_of_lt_mul (by rw [Nat.mul_comm fps.numerator.toNat]; omega)

namespace Gap

variable {gap : Gap}

/-! ## The run of exact ends -/

/-- The source range is mapped to exactly the duration. -/
def Exact (gap : Gap) (start stop : TimeCode) : Prop :=
  mapSourceRangeToProject start stop gap.sourceFps gap.projectFps = .ok gap.projectDuration

/-- The source range is exact, inside the source, and has the sample frames that the gap demands. -/
structure Covers (gap : Gap) (start stop : TimeCode) : Prop where
  exact : gap.Exact start stop
  inside : stop ≤ gap.sourceDuration
  supplies : gap.required ≤ suppliedSampleFrames start stop gap.sampleRate gap.sourceFps

/-- Valid arguments. -/
structure IsValid (gap : Gap) : Prop where
  sourceFps : gap.sourceFps.IsValid
  projectFps : gap.projectFps.IsValid
  sampleRate : gap.sampleRate ≠ 0
  projectDuration : 0 < gap.projectDuration.toInt
  sourceDuration : 0 < gap.sourceDuration.toInt

theorem Exact.start_nonneg (h : gap.Exact start stop) : 0 ≤ start.toInt := (mapSourceRange_ok h).2.2.1

theorem Exact.start_lt (h : gap.Exact start stop) : start.toInt < stop.toInt := (mapSourceRange_ok h).2.2.2.1

theorem exact_iff (hvalid : gap.IsValid) (hstart : 0 ≤ start.toInt) : gap.Exact start stop ↔
    0 ≤ stop.toInt ∧ carried gap.sourceFps gap.projectFps stop
      = carried gap.sourceFps gap.projectFps start + gap.projectDuration.toInt.toNat ∧
      carried gap.sourceFps gap.projectFps stop < 2 ^ 63 :=
  exactEnd_iff hvalid.sourceFps hvalid.projectFps hstart hvalid.projectDuration

/-- The exact ends are a run. -/
theorem Exact.between (hvalid : gap.IsValid) (h : gap.Exact start stop) (h' : gap.Exact start other)
    {middle : TimeCode} (hlower : stop.toInt ≤ middle.toInt) (hupper : middle.toInt ≤ other.toInt) :
    gap.Exact start middle := by
  have hstart := h.start_nonneg
  rw [exact_iff hvalid hstart] at h h' ⊢
  have hfirst : carried gap.sourceFps gap.projectFps stop ≤ carried gap.sourceFps gap.projectFps middle :=
    carried_mono hlower
  have hlast : carried gap.sourceFps gap.projectFps middle ≤ carried gap.sourceFps gap.projectFps other :=
    carried_mono hupper
  exact ⟨by omega, by omega, by omega⟩

/-- What the walk from an exact end finds: the least end that covers, or that there is none. -/
theorem coveringEnd_spec (hvalid : gap.IsValid) (fuel : ℕ) (hexact : gap.Exact start stop)
    (hfuel : gap.sourceDuration.toInt - stop.toInt < fuel)
    (hleast : ∀ other, gap.Covers start other → stop.toInt ≤ other.toInt) :
    (∀ found, gap.coveringEnd start fuel stop = some found →
      gap.Covers start found ∧ ∀ other, gap.Covers start other → found.toInt ≤ other.toInt) ∧
    (gap.coveringEnd start fuel stop = none → ∀ other, ¬ gap.Covers start other) := by
  induction fuel generalizing stop with
  | zero =>
    refine ⟨fun found h => (by cases h), fun _ other hother => ?_⟩
    have hinside := le_iff_toInt_le.mp hother.inside
    have := hleast other hother
    omega
  | succ fuel ih =>
    rw [coveringEnd]
    by_cases hout : gap.sourceDuration < stop
    · rw [if_pos hout]
      refine ⟨fun found h => (by cases h), fun _ other hother => ?_⟩
      have hinside := le_iff_toInt_le.mp hother.inside
      rw [lt_iff_toInt_lt] at hout
      have := hleast other hother
      omega
    rw [if_neg hout]
    by_cases hsupplies : gap.required ≤ suppliedSampleFrames start stop gap.sampleRate gap.sourceFps
    · rw [if_pos hsupplies]
      refine ⟨fun found h => ?_, fun h => by cases h⟩
      obtain rfl := Option.some.inj h
      exact ⟨⟨hexact, Int64.not_lt.mp hout, hsupplies⟩, hleast⟩
    rw [if_neg hsupplies]
    -- an end that covers is after this one, and the one after this is exact as well
    have hafter {other : TimeCode} (hother : gap.Covers start other) : stop < other := by
      have hle := hleast other hother
      rw [lt_iff_toInt_lt]
      by_contra hsame
      have heq : other = stop := toInt_inj.mp (by omega)
      exact hsupplies (heq ▸ hother.supplies)
    have hnext {other : TimeCode} (hother : gap.Covers start other) : gap.Exact start (saturatingSucc stop) := by
      have hlt := hafter hother
      have hvalue := toInt_saturatingSucc hlt
      rw [lt_iff_toInt_lt] at hlt
      exact hexact.between hvalid hother.exact (by omega) (by omega)
    by_cases hbreak : saturatingSucc stop ≤ stop ∨
        isExact start gap.projectDuration gap.sourceFps gap.projectFps (saturatingSucc stop) = false
    · rw [if_pos hbreak]
      refine ⟨fun found h => (by cases h), fun _ other hother => ?_⟩
      rcases hbreak with hfull | hinexact
      · have hvalue := toInt_saturatingSucc (hafter hother)
        rw [le_iff_toInt_le] at hfull
        omega
      · have hholds : isExact start gap.projectDuration gap.sourceFps gap.projectFps (saturatingSucc stop) = true :=
          isExact_eq_true.mpr (hnext hother)
        rw [hholds] at hinexact
        cases hinexact
    · rw [if_neg hbreak]
      obtain ⟨hgrows, hexactNext⟩ := not_or.mp hbreak
      rw [Bool.not_eq_false, isExact_eq_true] at hexactNext
      have hvalue := toInt_saturatingSucc (Int64.not_le.mp hgrows)
      refine ih hexactNext (by omega) fun other hother => ?_
      have hlt := lt_iff_toInt_lt.mp (hafter hother)
      omega

/-- The least range of a start that covers the gap. -/
structure LeastCovering (gap : Gap) (start stop : TimeCode) : Prop where
  covers : gap.Covers start stop
  least : ∀ other, gap.Covers start other → stop.toInt ≤ other.toInt

theorem coveringFrom_spec (hvalid : gap.IsValid)
    (hsmallest : LeastEnd start gap.projectDuration gap.sourceFps gap.projectFps smallest) :
    (∀ found, gap.coveringFrom start smallest = some found → gap.LeastCovering start found) ∧
      (gap.coveringFrom start smallest = none → ∀ other, ¬ gap.Covers start other) := by
  obtain ⟨hfound, hnone⟩ := coveringEnd_spec hvalid (gap.sourceDuration.toInt - smallest.toInt + 1).toNat
    hsmallest.exact (by omega) fun other hother => le_iff_toInt_le.mp (hsmallest.least other hother.exact)
  refine ⟨fun found h => ?_, hnone⟩
  obtain ⟨hcovers, hleast⟩ := hfound found h
  exact ⟨hcovers, hleast⟩

/-! ## The sweep -/

/-- The arithmetic of a start stays in the frame counts. -/
def Fits (gap : Gap) (start : TimeCode) : Prop :=
  0 ≤ start.toInt ∧ FitsFrames start gap.projectDuration gap.sourceFps gap.projectFps

/-- What the sweep over starts finds: the first start with a range that covers, and its least range; or that there is
none, or not even an exact one. -/
structure Swept (gap : Gap) (anyExact : Bool) (starts : List TimeCode) (result : Except TimeMappingError FrameRange) :
    Prop where
  found : ∀ range, result = .ok range → range.start ∈ starts ∧ gap.LeastCovering range.start range.stop ∧
    ∀ start ∈ starts, ∀ stop, gap.Covers start stop → range.start.toInt ≤ start.toInt
  refused : ∀ error, result = .error error → (∀ start ∈ starts, ∀ stop, ¬ gap.Covers start stop) ∧
    (error = .noCoveringSourceRange gap.projectDuration gap.sourceDuration ∨
      error = .inexactDuration 0 gap.projectDuration ∧ anyExact = false ∧
        ∀ start ∈ starts, ∀ stop, ¬ gap.Exact start stop)

/-- A start without exact ends is passed by. -/
theorem Swept.pass {anyExact : Bool} {starts : List TimeCode} {result : Except TimeMappingError FrameRange}
    (h : gap.Swept anyExact starts result) (hnone : ∀ stop, ¬ gap.Exact start stop) :
    gap.Swept anyExact (start :: starts) result := by
  refine ⟨fun range hrange => ?_, fun error herror => ?_⟩
  · obtain ⟨hmem, hleast, hfirst⟩ := h.found range hrange
    refine ⟨mem_cons_of_mem _ hmem, hleast, forall_mem_cons.mpr ⟨fun stop hcovers => ?_, hfirst⟩⟩
    exact absurd hcovers.exact (hnone stop)
  · obtain ⟨hrefused, herror⟩ := h.refused error herror
    refine ⟨forall_mem_cons.mpr ⟨fun stop hcovers => hnone stop hcovers.exact, hrefused⟩, herror.imp_right ?_⟩
    rintro ⟨hsame, hinexact, hstarts⟩
    exact ⟨hsame, hinexact, forall_mem_cons.mpr ⟨hnone, hstarts⟩⟩

theorem sweep_spec (hvalid : gap.IsValid) (anyExact : Bool) {starts : List TimeCode}
    (hfits : ∀ start ∈ starts, gap.Fits start) (hsorted : starts.Pairwise fun start next => start.toInt ≤ next.toInt) :
    gap.Swept anyExact starts (gap.sweep anyExact starts) := by
  induction starts generalizing anyExact with
  | nil =>
    refine ⟨fun range h => (by cases h), fun error h => ⟨forall_mem_nil _, ?_⟩⟩
    obtain rfl := Except.error.inj h
    cases anyExact with
    | true => exact .inl rfl
    | false => exact .inr ⟨rfl, rfl, forall_mem_nil _⟩
  | cons start starts ih =>
    obtain ⟨⟨hstart, hfit⟩, hrest⟩ := forall_mem_cons.mp hfits
    obtain ⟨hhead, htail⟩ := pairwise_cons.mp hsorted
    rw [sweep]
    cases hsmallest : mapProjectDurationToSource start gap.projectDuration gap.sourceFps gap.projectFps with
    | error error =>
      refine (ih anyExact hrest htail).pass fun stop hexact => ?_
      obtain ⟨smallest, hsome⟩ :=
        exists_mapProjectDuration hvalid.sourceFps hvalid.projectFps hstart hvalid.projectDuration hfit hexact
      rw [hsmallest] at hsome
      cases hsome
    | ok smallest =>
      obtain ⟨hfound, hnone⟩ := coveringFrom_spec hvalid (leastEnd_of_ok hsmallest)
      dsimp only
      cases hcovering : gap.coveringFrom start smallest with
      | some stop =>
        refine ⟨fun range h => ?_, fun error h => (by cases h)⟩
        obtain rfl := Except.ok.inj h
        exact ⟨mem_cons_self, hfound stop hcovering,
          forall_mem_cons.mpr ⟨fun _ _ => le_rfl, fun other hother _ _ => hhead other hother⟩⟩
      | none =>
        have hswept := ih true hrest htail
        have huncovered := hnone hcovering
        refine ⟨fun range h => ?_, fun error h => ?_⟩
        · obtain ⟨hmem, hcovers, hfirst⟩ := hswept.found range h
          refine ⟨mem_cons_of_mem _ hmem, hcovers, forall_mem_cons.mpr ⟨fun stop hstop => ?_, hfirst⟩⟩
          exact absurd hstop (huncovered stop)
        · obtain ⟨hrefused, herror⟩ := hswept.refused error h
          refine ⟨forall_mem_cons.mpr ⟨huncovered, hrefused⟩, .inl ?_⟩
          rcases herror with herror | ⟨-, hexact, -⟩
          · exact herror
          · cases hexact

/-! ## One period of starts -/

variable (hvalid : gap.IsValid)
  (hperiod : combinedPeriod gap.sourceFps gap.projectFps gap.sampleRate ≤ maxPhaseCandidates)

include hvalid hperiod

/-- The starts that are tried are those of one period of both roundings. -/
theorem phaseCandidates_eq : phaseCandidates gap.sourceFps gap.projectFps gap.sampleRate
    = Nat.lcm (period (gap.sourceFps.scale gap.projectFps) (gap.projectFps.scale gap.sourceFps))
        (period (gap.sampleRate.toNat * gap.sourceFps.denominator.toNat) gap.sourceFps.numerator.toNat) := by
  have hmap : 0 < period (gap.sourceFps.scale gap.projectFps) (gap.projectFps.scale gap.sourceFps) :=
    period_pos (hvalid.projectFps.scale_pos hvalid.sourceFps)
  have hsample : 0 < period (gap.sampleRate.toNat * gap.sourceFps.denominator.toNat) gap.sourceFps.numerator.toNat :=
    period_pos hvalid.sourceFps.numerator_pos
  have hlcm {m n : ℕ} : m / Nat.gcd m n * n = Nat.lcm m n := Nat.div_mul_right_comm (Nat.gcd_dvd_left m n) n
  rw [combinedPeriod, hlcm, maxPhaseCandidates] at hperiod
  rw [phaseCandidates, combinedPeriod, hlcm, maxPhaseCandidates]
  have hpos := Nat.lcm_pos hmap hsample
  omega

/-- A range some periods before is exact as well, and has as many samples. -/
theorem exists_earlier (hexact : gap.Exact start stop) : ∃ start' ∈ gap.starts, ∃ stop', start'.toInt ≤ start.toInt ∧
    stop'.toInt ≤ stop.toInt ∧ gap.Exact start' stop' ∧ suppliedSampleFrames start' stop' gap.sampleRate gap.sourceFps
        = suppliedSampleFrames start stop gap.sampleRate gap.sourceFps := by
  have hstart := hexact.start_nonneg
  have hlt := hexact.start_lt
  obtain ⟨hstop, hcarried, hfits⟩ := (exact_iff hvalid hstart).mp hexact
  have heq := phaseCandidates_eq hvalid hperiod
  obtain ⟨first, hfirst⟩ := Int.eq_ofNat_of_zero_le hstart
  obtain ⟨last, hlast⟩ := Int.eq_ofNat_of_zero_le hstop
  have hpos : 0 < phaseCandidates gap.sourceFps gap.projectFps gap.sampleRate := by
    rw [phaseCandidates]
    omega
  -- the whole periods before the start
  have hsplit := Nat.mod_add_div first (phaseCandidates gap.sourceFps gap.projectFps gap.sampleRate)
  have hphase := Nat.mod_lt first hpos
  have hmap : Repeats (gap.sourceFps.scale gap.projectFps) (gap.projectFps.scale gap.sourceFps)
      (phaseCandidates gap.sourceFps gap.projectFps gap.sampleRate
        * (first / phaseCandidates gap.sourceFps gap.projectFps gap.sampleRate)) :=
    repeats_of_dvd (Dvd.dvd.mul_right (heq ▸ Nat.dvd_lcm_left _ _) _)
  have hsample : Repeats (gap.sampleRate.toNat * gap.sourceFps.denominator.toNat) gap.sourceFps.numerator.toNat
      (phaseCandidates gap.sourceFps gap.projectFps gap.sampleRate
        * (first / phaseCandidates gap.sourceFps gap.projectFps gap.sampleRate)) :=
    repeats_of_dvd (Dvd.dvd.mul_right (heq ▸ Nat.dvd_lcm_right _ _) _)
  generalize phaseCandidates gap.sourceFps gap.projectFps gap.sampleRate
    * (first / phaseCandidates gap.sourceFps gap.projectFps gap.sampleRate) = periods at hsplit hmap hsample
  generalize hrest : first % phaseCandidates gap.sourceFps gap.projectFps gap.sampleRate = rest at hsplit hphase
  have hmax := stop.toInt_lt
  have hlower : (Int64.ofNat rest).toInt = rest := toInt_ofNat_of_lt (by omega)
  have hupper : (Int64.ofNat (last - periods)).toInt = (last - periods : ℕ) := toInt_ofNat_of_lt (by omega)
  have hback : last - periods + periods = last := Nat.sub_add_cancel (by omega)
  refine ⟨Int64.ofNat rest, mem_map.mpr ⟨rest, mem_range.mpr hphase, rfl⟩, Int64.ofNat (last - periods),
    by omega, by omega, ?_, ?_⟩
  · have hmono : carried gap.sourceFps gap.projectFps (Int64.ofNat (last - periods))
        ≤ carried gap.sourceFps gap.projectFps stop := carried_mono (by omega)
    refine (exact_iff hvalid (by omega)).mpr ⟨by omega, ?_, by omega⟩
    rw [carried, carried, hlower, hupper, Int.toNat_natCast, Int.toNat_natCast]
    refine (hmap.exact_add (hvalid.projectFps.scale_pos hvalid.sourceFps)).mp ?_
    rw [hback, hsplit]
    rw [carried, carried, hfirst, hlast] at hcarried
    exact hcarried
  · rw [suppliedSampleFrames, suppliedSampleFrames, frameSamplePosition_eq (by omega), frameSamplePosition_eq (by omega),
      frameSamplePosition_eq hstop, frameSamplePosition_eq hstart, hlower, hupper, hfirst, hlast, Int.toNat_natCast,
      Int.toNat_natCast, Int.toNat_natCast, Int.toNat_natCast,
      ← hsample.floor_sub_floor_add hvalid.sourceFps.numerator_pos, hback, hsplit]

theorem Covers.exists_earlier (hcovers : gap.Covers start stop) :
    ∃ start' ∈ gap.starts, ∃ stop', start'.toInt ≤ start.toInt ∧ gap.Covers start' stop' := by
  obtain ⟨start', hmem, stop', hstart, hstop, hexact, hsupplied⟩ := Gap.exists_earlier hvalid hperiod hcovers.exact
  have hinside := le_iff_toInt_le.mp hcovers.inside
  exact ⟨start', hmem, stop', hstart, hexact, le_iff_toInt_le.mpr (hstop.trans hinside),
    hsupplied.symm ▸ hcovers.supplies⟩

end Gap

/-- The starts are frames, in order. -/
theorem Gap.sorted_starts (gap : Gap) : (∀ start ∈ gap.starts, 0 ≤ start.toInt) ∧
    gap.starts.Pairwise fun start next => start.toInt ≤ next.toInt := by
  have hcap : phaseCandidates gap.sourceFps gap.projectFps gap.sampleRate ≤ 4096 := by
    rw [phaseCandidates, maxPhaseCandidates]
    omega
  have hvalue {n : ℕ} (hn : n ∈ List.range (phaseCandidates gap.sourceFps gap.projectFps gap.sampleRate)) :
      (Int64.ofNat n).toInt = n := by
    have hlt := mem_range.mp hn
    exact toInt_ofNat_of_lt (by omega)
  constructor
  · refine forall_mem_map.mpr fun n hn => ?_
    rw [hvalue hn]
    exact Int.natCast_nonneg n
  · refine pairwise_map.mpr (pairwise_lt_range.imp_of_mem fun {n m} hn hm hlt => ?_)
    rw [hvalue hn, hvalue hm]
    omega

theorem Gap.coveringSourceRange_eq {gap : Gap} (hvalid : gap.IsValid) : gap.coveringSourceRange =
    if gap.sourceDuration < minimumSourceFrames gap.required gap.sampleRate gap.sourceFps then
      .error (.sourceTooShortToCover gap.projectDuration gap.sourceDuration
        (minimumSourceFrames gap.required gap.sampleRate gap.sourceFps))
    else gap.sweep false gap.starts := by
  have hrate : Rational.new gap.sampleRate 1 = .ok ⟨gap.sampleRate / UInt32.ofNat (Nat.gcd gap.sampleRate.toNat 1),
      1 / UInt32.ofNat (Nat.gcd gap.sampleRate.toNat 1)⟩ :=
    if_neg (not_or.mpr ⟨hvalid.sampleRate, by decide⟩)
  have hlong : refuse (gap.projectDuration.toInt ≤ 0) (TimeMappingError.invalidRange 0 gap.projectDuration) = .ok () :=
    if_neg (not_le.mpr hvalid.projectDuration)
  have hsource : refuse (gap.sourceDuration.toInt ≤ 0) (TimeMappingError.invalidRange 0 gap.sourceDuration) = .ok () :=
    if_neg (not_le.mpr hvalid.sourceDuration)
  rw [coveringSourceRange, validateRate_eq_ok.mpr hvalid.sourceFps, validateRate_eq_ok.mpr hvalid.projectFps, hrate, hlong,
    hsource, ok_bind, ok_bind, ok_bind, ok_bind, ok_bind]
  dsimp only
  rw [refuse]
  split
  · rfl
  · rfl

/-- Seven frames at 25 frames a second, of a source of twelve at 30. -/
def sevenFrames : Gap := ⟨7, ⟨30, 1⟩, ⟨25, 1⟩, 12, 48000⟩

end Kinewright.Model
