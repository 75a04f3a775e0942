import Mathlib.Tactic.Ring
import Kinewright.Matte.Scan

/-!
# What the coverage statistics say

The counts are those of the raster, and the bounding box is the smallest region in basis points that covers every covered pixel as a
whole. It need not be the smallest region whose pixels have them all. The centroid is inside the bounding box.
-/

namespace Kinewright.Matte

open Fallible Grid List NormalizedRoi
open RgbaImage hiding mk pixels

/-! ## Weights -/

section

variable {axis weight weight' : ℕ × ℕ → ℕ} {samples : List Sample} {first last weighted extent : ℕ}

theorem weigh_cons (weight : ℕ × ℕ → ℕ) (sample : Sample) (samples : List Sample) :
    weigh weight (sample :: samples) = sample.2.toNat * weight sample.1 + weigh weight samples := by
  rfl

theorem weigh_mono (h : ∀ sample ∈ samples, sample.2 ≠ 0 → weight sample.1 ≤ weight' sample.1) : weigh weight samples ≤ weigh weight' samples := by
  induction samples with
  | nil => exact le_rfl
  | cons sample samples ih =>
    obtain ⟨hfirst, hrest⟩ := forall_mem_cons.mp h
    rw [weigh_cons]
    refine Nat.add_le_add ?_ (ih hrest)
    by_cases hcode : sample.2 = 0
    · rw [hcode]
      exact (Nat.zero_mul _).trans_le (Nat.zero_le _)
    · exact Nat.mul_le_mul_left _ (hfirst hcode)

theorem weigh_const (k : ℕ) (samples : List Sample) : weigh (fun _ => k) samples = weigh (fun _ => 1) samples * k := by
  induction samples with
  | nil => exact (Nat.zero_mul k).symm
  | cons sample samples ih => rw [weigh_cons, weigh_cons, ih, Nat.add_mul, Nat.mul_one]

theorem weigh_add (weight weight' : ℕ × ℕ → ℕ) (samples : List Sample) :
    weigh (fun place => weight place + weight' place) samples = weigh weight samples + weigh weight' samples := by
  induction samples with
  | nil => rfl
  | cons sample samples ih =>
    rw [weigh_cons, weigh_cons, weigh_cons, Nat.mul_add]
    omega

theorem weigh_le_length (samples : List Sample) : weigh (fun _ => 1) samples ≤ samples.length * 255 := by
  induction samples with
  | nil => exact le_rfl
  | cons sample samples ih =>
    rw [weigh_cons, length_cons]
    have hlt := sample.2.toNat_lt
    omega

theorem weigh_eq_zero : weigh (fun _ => 1) samples = 0 ↔ ∀ sample ∈ samples, sample.2 = 0 := by
  induction samples with
  | nil => exact ⟨fun _ => forall_mem_nil _, fun _ => rfl⟩
  | cons sample samples ih => rw [weigh_cons, Nat.mul_one, Nat.add_eq_zero_iff, ih, forall_mem_cons, ← UInt8.toNat_inj, UInt8.toNat_zero]

/-- The weighted mean of the samples is between their bounds. -/
theorem Extends.mean (h : Extends axis samples first last weighted) :
    weigh (fun _ => 1) samples * (first * 2 + 1) ≤ weighted ∧ weighted + weigh (fun _ => 1) samples ≤ weigh (fun _ => 1) samples * (last * 2) := by
  rw [h.weighted, ← weigh_const, ← weigh_const, ← weigh_add]
  refine ⟨weigh_mono fun sample hsample hcode => ?_, weigh_mono fun sample hsample hcode => ?_⟩
  all_goals
    have hinside := h.inside sample hsample hcode
    omega

/-! ## The axes of the box -/

/-- Where the centre of the weights is in basis points. -/
def centre (weighted coverageSum extent : ℕ) : ℕ :=
  (weighted * (scopeBasisPoints / 2) * 2 + coverageSum * extent) / (coverageSum * extent * 2)

/-- A mean between two bounds is rounded to a centre between the rounded bounds. -/
theorem centre_between {sum : ℕ} (hsum : 0 < sum) (hextent : 0 < extent) (hfirst : sum * (first * 2 + 1) ≤ weighted)
    (hlast : weighted + sum ≤ sum * (last * 2)) :
    floor scopeBasisPoints extent first ≤ centre weighted sum extent ∧
      centre weighted sum extent ≤ ceil scopeBasisPoints extent last := by
  have hpos : 0 < sum * extent := Nat.mul_pos hsum hextent
  have hfloor : floor scopeBasisPoints extent first * extent ≤ first * scopeBasisPoints := Nat.div_mul_le_self _ _
  have hceil : last * scopeBasisPoints ≤ ceil scopeBasisPoints extent last * extent := ceil_mul_ge hextent
  have hhalf : weighted * (scopeBasisPoints / 2) * 2 = weighted * scopeBasisPoints := by rw [scopeBasisPoints]; omega
  rw [centre, hhalf]
  constructor
  · rw [Nat.le_div_iff_mul_le (by omega)]
    calc
      floor scopeBasisPoints extent first * (sum * extent * 2) = floor scopeBasisPoints extent first * extent * (sum * 2) := by ring
      _ ≤ first * scopeBasisPoints * (sum * 2) := Nat.mul_le_mul_right _ hfloor
      _ = sum * (first * 2) * scopeBasisPoints := by ring
      _ ≤ weighted * scopeBasisPoints := Nat.mul_le_mul_right _ (by rw [Nat.mul_add] at hfirst; omega)
      _ ≤ weighted * scopeBasisPoints + sum * extent := Nat.le_add_right _ _
  · rw [← Nat.lt_succ_iff, Nat.div_lt_iff_lt_mul (by omega)]
    calc
      weighted * scopeBasisPoints + sum * extent ≤ sum * (last * 2) * scopeBasisPoints + sum * extent :=
        Nat.add_le_add_right (Nat.mul_le_mul_right _ (by omega)) _
      _ = last * scopeBasisPoints * (sum * 2) + sum * extent := by ring
      _ ≤ ceil scopeBasisPoints extent last * extent * (sum * 2) + sum * extent := Nat.add_le_add_right (Nat.mul_le_mul_right _ hceil) _
      _ < ceil scopeBasisPoints extent last * extent * (sum * 2) + sum * extent * 2 := by omega
      _ = (ceil scopeBasisPoints extent last).succ * (sum * extent * 2) := by rw [Nat.succ_eq_add_one]; ring

theorem representable_eq {limit n : ℕ} (h : n < limit) (operation : String) : representable limit operation n = .ok n := if_pos h

theorem ceil_le_scope (hextent : 0 < extent) (hlast : last ≤ extent) : ceil scopeBasisPoints extent last ≤ scopeBasisPoints := by
  have hmono := ceil_mono (a := scopeBasisPoints) (d := extent) hlast
  have hwhole : ceil scopeBasisPoints extent extent = scopeBasisPoints := by
    rw [ceil, Nat.mul_add_div hextent, Nat.div_eq_of_lt (by omega), Nat.add_zero]
  omega

/-- The sums of the weights are far below the limit of their integers. -/
theorem weightedCentre_eq {sum : ℕ} (hextent : 0 < extent) (hlast : last ≤ extent) (hextent' : extent < 2 ^ 32)
    (hfits : sum < 2 ^ 70) (hbelow : weighted < 2 ^ 110) (hcentre : centre weighted sum extent ≤ ceil scopeBasisPoints extent last) :
    weightedCentre weighted sum extent = .ok (centre weighted sum extent) := by
  have hproduct : sum * extent < 2 ^ 70 * 2 ^ 32 := Nat.mul_lt_mul'' hfits hextent'
  have hcentre' := hcentre.trans (ceil_le_scope hextent hlast)
  rw [weightedCentre, representable_eq (by rw [scopeBasisPoints]; omega), ok_bind, representable_eq (by omega), ok_bind,
    representable_eq (by omega), ok_bind, representable_eq (by rw [scopeBasisPoints]; omega), ok_bind,
    representable_eq (by rw [scopeBasisPoints]; omega), ok_bind]
  exact representable_eq (lt_of_le_of_lt hcentre' (by decide)) _

theorem coverageSpan_eq (hextent : 0 < extent) (hfirst : first < last) (hlast : last ≤ extent) :
    coverageSpan first last extent = .ok (floor scopeBasisPoints extent first,
      ceil scopeBasisPoints extent last - floor scopeBasisPoints extent first) := by
  have hlt := floor_lt_ceil (show 0 < scopeBasisPoints by decide) hextent hfirst
  have hle := ceil_le_scope hextent hlast
  have hscope : scopeBasisPoints < 2 ^ 32 := by decide
  change (representable (2 ^ 32) "bounding_box_basis_points" (floor scopeBasisPoints extent first) >>= fun startBasisPoints =>
    representable (2 ^ 32) "bounding_box_basis_points" (ceil scopeBasisPoints extent last) >>= fun endBasisPoints =>
    refuse (endBasisPoints < startBasisPoints) (.arithmeticOverflow "bounding_box_basis_points") >>= fun _ =>
    .ok (startBasisPoints, endBasisPoints - startBasisPoints)) = _
  rw [representable_eq (by omega), ok_bind, representable_eq (by omega), ok_bind, refuse, if_neg (by omega), ok_bind]

end

/-! ## The statistics of a raster -/

/-- Whatever the walk adds without a check is in the range of its integer. -/
structure CoverageScan.Fits (scan : CoverageScan) : Prop where
  covered : scan.coveredPixelCount < 2 ^ 64
  full : scan.fullPixelCount < 2 ^ 64
  parts : scan.partialPixelCount < 2 ^ 64
  histogram : ∀ count ∈ scan.coverageHistogram, count < 2 ^ 64
  right : scan.right < 2 ^ 32
  bottom : scan.bottom < 2 ^ 32
  coverageSum : scan.coverageSum < 2 ^ 128
  weightedX : scan.weightedX < 2 ^ 128
  weightedY : scan.weightedY < 2 ^ 128

/-- The bounding box of a covered raster. -/
structure NormalizedRoi.Bounds (roi : NormalizedRoi) (coverage : RgbaImage) : Prop where
  valid : roi.validate = .ok ()
  covers : ∀ x y, coverage.CoveredAt x y → roi.Covers coverage.width coverage.height x y
  smallest : ∀ roi' : NormalizedRoi, (∀ x y, coverage.CoveredAt x y → roi'.Covers coverage.width coverage.height x y) → roi.Within roi'

/-- The statistics of a raster. -/
structure MatteCoverageStatistics.Describes (stats : MatteCoverageStatistics) (coverage : RgbaImage) : Prop where
  total : stats.totalPixelCount = coverage.width * coverage.height
  covered : stats.coveredPixelCount = coverage.coveredCount
  full : stats.fullPixelCount = (asChunks coverage.pixels).countP fun pixel => pixel.code = 255
  parts : stats.coveredPixelCount = stats.fullPixelCount + stats.partialPixelCount
  histogram : stats.coverageHistogram.sum = stats.totalPixelCount
  bucket : ∀ bucket < matteCoverageHistogramBuckets,
    stats.coverageHistogram.getD bucket 0 = (asChunks coverage.pixels).countP fun pixel : Pixel => (pixel.code >>> 4).toNat = bucket
  basisPoints : stats.coveredBasisPoints = stats.coveredPixelCount * scopeBasisPoints / stats.totalPixelCount
  empty : coverage.coveredCount = 0 → stats.boundingBoxBasisPoints = none ∧ stats.centroidBasisPoints = none
  box : 0 < coverage.coveredCount → ∃ roi ∈ stats.boundingBoxBasisPoints, roi.Bounds coverage ∧
    (∃ rect, roi.toPixels coverage.width coverage.height = .ok rect ∧ (∀ x y, coverage.CoveredAt x y → rect.Has x y) ∧
      ∀ roi' : NormalizedRoi, roi'.validate = .ok () → (∀ x y, coverage.CoveredAt x y → roi'.Covers coverage.width coverage.height x y) →
        ∃ rect', roi'.toPixels coverage.width coverage.height = .ok rect' ∧ rect.Within rect') ∧
    ∃ centroid ∈ stats.centroidBasisPoints, (roi.xBasisPoints ≤ centroid.1 ∧ centroid.1 ≤ roi.rightBasisPoints) ∧
      roi.yBasisPoints ≤ centroid.2 ∧ centroid.2 ≤ roi.bottomBasisPoints

section

variable {coverage : RgbaImage} {scan : CoverageScan} {samples : List Sample} {walked : List (ℕ × ℕ)}

theorem pixels_lt (hmatch : coverage.Matches) : coverage.width * coverage.height * 4 < 2 ^ 63 := hmatch ▸ coverage.length_lt

theorem Extends.last_le {axis : ℕ × ℕ → ℕ} {first last weighted extent : ℕ} (h : Extends axis samples first last weighted)
    (hextent : ∀ sample ∈ samples, axis sample.1 < extent) : last ≤ extent := by
  rcases h.ends with ⟨-, -, rfl⟩ | ⟨-, sample, hsample, -, rfl⟩
  · exact Nat.zero_le _
  · exact hextent sample hsample

/-- A weight below the limit of a place is far below the limit of its sum. -/
theorem Extends.weighted_lt {axis : ℕ × ℕ → ℕ} {first last weighted : ℕ} (h : Extends axis samples first last weighted)
    (hlast : last < 2 ^ 32) (hlength : samples.length < 2 ^ 61) : weighted < 2 ^ 110 := by
  have hsum := weigh_le_length samples
  have hproduct : weigh (fun _ => 1) samples * (last * 2) ≤ 2 ^ 69 * 2 ^ 33 := Nat.mul_le_mul (by omega) (by omega)
  have hmean := h.mean.2
  omega

theorem CoverageScan.Counts.fits (h : scan.Counts samples) (hlength : samples.length < 2 ^ 61)
    (hplaces : ∀ sample ∈ samples, sample.1.1 < coverage.width ∧ sample.1.2 < coverage.height) : scan.Fits := by
  have hright : scan.right ≤ coverage.width := h.horizontal.last_le fun sample hsample => (hplaces sample hsample).1
  have hbottom : scan.bottom ≤ coverage.height := h.vertical.last_le fun sample hsample => (hplaces sample hsample).2
  have hwidth := coverage.width_lt
  have hheight := coverage.height_lt
  have hparts := h.parts
  have hcovered : scan.coveredPixelCount ≤ samples.length := h.covered ▸ countP_le_length
  have hsum := weigh_le_length samples
  refine ⟨by omega, by omega, by omega, fun count hcount => ?_, by omega, by omega, by rw [h.coverageSum]; omega, ?_, ?_⟩
  · have hle := single_le_sum (fun _ _ => Nat.zero_le _) count hcount
    rw [h.histogram] at hle
    omega
  · have hlt := h.horizontal.weighted_lt (by omega) hlength
    omega
  · have hlt := h.vertical.weighted_lt (by omega) hlength
    omega

theorem lt_of_mem_places {place : ℕ × ℕ} (h : place ∈ places coverage.width coverage.height) : place.1 < 2 ^ 32 ∧ place.2 < 2 ^ 32 := by
  obtain ⟨hx, hy⟩ := mem_places.mp h
  exact ⟨hx.trans coverage.width_lt, hy.trans coverage.height_lt⟩

/-- At every point of the walk. -/
theorem fits_of_walk (hmatch : coverage.Matches) (hwalked : walked <+: places coverage.width coverage.height) {rest : List Pixel}
    (h : coverage.walk walked = .ok (scan, rest)) : scan.Fits := by
  have hlength : walked.length ≤ (asChunks coverage.pixels).length := by
    rw [length_chunks hmatch, ← length_places]
    exact hwalked.length_le
  have hplaces : ∀ place ∈ walked, place.1 < 2 ^ 32 ∧ place.2 < 2 ^ 32 := fun place hplace => lt_of_mem_places (hwalked.subset hplace)
  rcases foldlM_scanPixel counts_start hplaces hlength with ⟨scan', hok, hcounts, -⟩ | ⟨error, herror, -⟩
  · obtain ⟨rfl, -⟩ := Prod.mk.inj (Except.ok.inj (h.symm.trans hok))
    have hinside : ∀ sample ∈ [] ++ walked.zip ((asChunks coverage.pixels).map Pixel.code),
        sample.1.1 < coverage.width ∧ sample.1.2 < coverage.height :=
      fun sample hsample => mem_places.mp (hwalked.subset (of_mem_zip hsample).1)
    refine hcounts.fits ?_ hinside
    have hlt := pixels_lt hmatch
    have hle := hwalked.length_le
    rw [length_places] at hle
    simp only [nil_append, length_zip]
    omega
  · cases h.symm.trans herror

/-- The scan of a whole raster, or why there is none. -/
theorem scanCoverage_cases (hmatch : coverage.Matches) :
    (coverage.OpaqueGrey ∧ ∃ scan, scanCoverage coverage = .ok scan ∧ scan.Counts coverage.samples) ∨
      ¬ coverage.OpaqueGrey ∧ ∃ error, scanCoverage coverage = .error error ∧ ∀ operation, error ≠ .arithmeticOverflow operation := by
  have hlength : (places coverage.width coverage.height).length = (asChunks coverage.pixels).length := by
    rw [length_chunks hmatch, length_places]
  have hplaces : ∀ place ∈ places coverage.width coverage.height, place.1 < 2 ^ 32 ∧ place.2 < 2 ^ 32 := fun place => lt_of_mem_places
  rcases foldlM_scanPixel counts_start hplaces hlength.le with
    ⟨scan, hok, hcounts, hall⟩ | ⟨error, herror, hother, pixel, hpixel, hnot⟩
  · rw [hlength, take_length] at hall
    refine .inl ⟨hall, scan, ?_, hcounts⟩
    rw [scanCoverage, walk, hok]
    rfl
  · refine .inr ⟨fun hall => hnot (hall pixel hpixel), error, ?_, hother⟩
    rw [scanCoverage, walk, herror]
    rfl

theorem countP_samples (hmatch : coverage.Matches) (p : UInt8 → Bool) :
    (coverage.samples.countP fun sample => p sample.2) = (asChunks coverage.pixels).countP fun pixel => p pixel.code := by
  have hlength : ((asChunks coverage.pixels).map Pixel.code).length ≤ (places coverage.width coverage.height).length := by
    rw [length_map, length_chunks hmatch, length_places]
  calc
    (coverage.samples.countP fun sample => p sample.2) = (coverage.samples.map Prod.snd).countP p := countP_map.symm
    _ = ((asChunks coverage.pixels).map Pixel.code).countP p := by rw [RgbaImage.samples, map_snd_zip hlength]
    _ = (asChunks coverage.pixels).countP fun pixel => p pixel.code := countP_map

theorem mem_places_of_mem {sample : Sample} (h : sample ∈ coverage.samples) : sample.1.1 < coverage.width ∧ sample.1.2 < coverage.height :=
  mem_places.mp (of_mem_zip h).1

theorem coveredCount_eq_zero (hmatch : coverage.Matches) :
    coverage.coveredCount = 0 ↔ ∀ sample ∈ coverage.samples, sample.2 = 0 := by
  rw [coveredCount, ← countP_samples hmatch fun code => code ≠ 0]
  simp

/-- The centre of a scan is between the bounds of its box. -/
theorem centre_of_counts (coverage : RgbaImage) (hcounts : scan.Counts samples) :
    (0 < scan.coverageSum → 0 < coverage.width →
      floor scopeBasisPoints coverage.width scan.left ≤ centre scan.weightedX scan.coverageSum coverage.width ∧
        centre scan.weightedX scan.coverageSum coverage.width ≤ ceil scopeBasisPoints coverage.width scan.right) ∧
    (0 < scan.coverageSum → 0 < coverage.height →
      floor scopeBasisPoints coverage.height scan.top ≤ centre scan.weightedY scan.coverageSum coverage.height ∧
        centre scan.weightedY scan.coverageSum coverage.height ≤ ceil scopeBasisPoints coverage.height scan.bottom) := by
  have hx := hcounts.horizontal.mean
  have hy := hcounts.vertical.mean
  rw [← hcounts.coverageSum] at hx hy
  exact ⟨fun hsum hwidth => centre_between hsum hwidth hx.1 hx.2, fun hsum hheight => centre_between hsum hheight hy.1 hy.2⟩

theorem le_floor {first start extent : ℕ} (hextent : 0 < extent) (h : start * extent ≤ first * scopeBasisPoints) :
    start ≤ floor scopeBasisPoints extent first := (Nat.le_div_iff_mul_le hextent).mpr h

theorem ceil_le_of_mul_le {last stop extent : ℕ} (hextent : 0 < extent) (h : last * scopeBasisPoints ≤ stop * extent) :
    ceil scopeBasisPoints extent last ≤ stop := by
  rw [ceil, ← Nat.lt_succ_iff, Nat.div_lt_iff_lt_mul hextent, Nat.succ_mul]
  omega

/-- The box around the covered pixels of a scan. -/
def CoverageScan.box (scan : CoverageScan) (coverage : RgbaImage) : NormalizedRoi where
  xBasisPoints := floor scopeBasisPoints coverage.width scan.left
  yBasisPoints := floor scopeBasisPoints coverage.height scan.top
  widthBasisPoints := ceil scopeBasisPoints coverage.width scan.right - floor scopeBasisPoints coverage.width scan.left
  heightBasisPoints := ceil scopeBasisPoints coverage.height scan.bottom - floor scopeBasisPoints coverage.height scan.top

/-- The bounds of the covered pixels of a scan. -/
structure CoverageScan.Encloses (scan : CoverageScan) (coverage : RgbaImage) : Prop where
  inside : ∀ x y, coverage.CoveredAt x y → (scan.left ≤ x ∧ x < scan.right) ∧ scan.top ≤ y ∧ y < scan.bottom
  left : ∃ y, coverage.CoveredAt scan.left y
  right : ∃ x y, coverage.CoveredAt x y ∧ x + 1 = scan.right
  top : ∃ x, coverage.CoveredAt x scan.top
  bottom : ∃ x y, coverage.CoveredAt x y ∧ y + 1 = scan.bottom
  inWidth : scan.right ≤ coverage.width
  inHeight : scan.bottom ≤ coverage.height

theorem encloses_of_counts (hwidth : 0 < coverage.width) (hcounts : scan.Counts coverage.samples)
    (hcovered : ∃ sample ∈ coverage.samples, sample.2 ≠ 0) : scan.Encloses coverage := by
  have hat {sample : Sample} (hsample : sample ∈ coverage.samples) (hcode : sample.2 ≠ 0) : coverage.CoveredAt sample.1.1 sample.1.2 :=
    (mem_samples hwidth).mp ⟨sample.2, hsample, hcode⟩
  obtain ⟨covered, hcovered, hcode⟩ := hcovered
  obtain ⟨⟨left, hleft, hleft', hleftmost⟩, right, hright, hright', hrightmost⟩ := hcounts.horizontal.ends.resolve_left
    fun hnone => hcode (hnone.1 covered hcovered)
  obtain ⟨⟨top, htop, htop', htopmost⟩, bottom, hbottom, hbottom', hbottommost⟩ := hcounts.vertical.ends.resolve_left
    fun hnone => hcode (hnone.1 covered hcovered)
  refine ⟨fun x y hxy => ?_, ⟨_, hleftmost ▸ hat hleft hleft'⟩, ⟨_, _, hat hright hright', hrightmost⟩, ⟨_, htopmost ▸ hat htop htop'⟩,
    ⟨_, _, hat hbottom hbottom', hbottommost⟩, ?_, ?_⟩
  · obtain ⟨code, hsample, hcode⟩ := (mem_samples hwidth).mpr hxy
    exact ⟨hcounts.horizontal.inside _ hsample hcode, hcounts.vertical.inside _ hsample hcode⟩
  · exact hcounts.horizontal.last_le fun sample hsample => (mem_places_of_mem hsample).1
  · exact hcounts.vertical.last_le fun sample hsample => (mem_places_of_mem hsample).2

/-- Between the bounds there is a pixel. -/
theorem CoverageScan.Encloses.lt (h : scan.Encloses coverage) : scan.left < scan.right ∧ scan.top < scan.bottom := by
  obtain ⟨y, hy⟩ := h.left
  have hinside := h.inside _ _ hy
  omega

theorem rightBasisPoints_box (hwidth : 0 < coverage.width) (h : scan.Encloses coverage) :
    (scan.box coverage).rightBasisPoints = ceil scopeBasisPoints coverage.width scan.right := by
  have hlt := floor_lt_ceil (show 0 < scopeBasisPoints by decide) hwidth h.lt.1
  show floor _ _ _ + (ceil _ _ _ - floor _ _ _) = _
  omega

theorem bottomBasisPoints_box (hheight : 0 < coverage.height) (h : scan.Encloses coverage) :
    (scan.box coverage).bottomBasisPoints = ceil scopeBasisPoints coverage.height scan.bottom := by
  have hlt := floor_lt_ceil (show 0 < scopeBasisPoints by decide) hheight h.lt.2
  show floor _ _ _ + (ceil _ _ _ - floor _ _ _) = _
  omega

theorem bounds_box (hwidth : 0 < coverage.width) (hheight : 0 < coverage.height) (h : scan.Encloses coverage) : (scan.box coverage).Bounds coverage where
  valid := by
    refine validate_eq_ok.mpr ⟨?_, ?_, ?_, ?_⟩
    · rw [rightBasisPoints_box hwidth h]
      exact floor_lt_ceil (by decide) hwidth h.lt.1
    · rw [bottomBasisPoints_box hheight h]
      exact floor_lt_ceil (by decide) hheight h.lt.2
    · rw [rightBasisPoints_box hwidth h]
      exact ceil_le_scope hwidth h.inWidth
    · rw [bottomBasisPoints_box hheight h]
      exact ceil_le_scope hheight h.inHeight
  covers x y hxy := by
    obtain ⟨⟨hleft, hright⟩, htop, hbottom⟩ := h.inside x y hxy
    refine ⟨?_, ?_, ?_, ?_⟩
    · exact (Nat.div_mul_le_self _ _).trans (Nat.mul_le_mul_right _ hleft)
    · exact (Nat.div_mul_le_self _ _).trans (Nat.mul_le_mul_right _ htop)
    · rw [rightBasisPoints_box hwidth h]
      exact (Nat.mul_le_mul_right _ hright).trans (ceil_mul_ge hwidth)
    · rw [bottomBasisPoints_box hheight h]
      exact (Nat.mul_le_mul_right _ hbottom).trans (ceil_mul_ge hheight)
  smallest roi' hcovers := by
    obtain ⟨y, hleft⟩ := h.left
    obtain ⟨x, htop⟩ := h.top
    obtain ⟨x', y', hright, hrightmost⟩ := h.right
    obtain ⟨x'', y'', hbottom, hbottommost⟩ := h.bottom
    refine ⟨le_floor hwidth (hcovers _ _ hleft).left, le_floor hheight (hcovers _ _ htop).top, ?_, ?_⟩
    · rw [rightBasisPoints_box hwidth h, ← hrightmost]
      exact ceil_le_of_mul_le hwidth (hcovers _ _ hright).right
    · rw [bottomBasisPoints_box hheight h, ← hbottommost]
      exact ceil_le_of_mul_le hheight (hcovers _ _ hbottom).bottom

/-- The part of the statistics behind the scan. -/
def statisticsOf (coverage : RgbaImage) (scan : CoverageScan) : MatteCoverageStatistics where
  coveredPixelCount := scan.coveredPixelCount
  fullPixelCount := scan.fullPixelCount
  partialPixelCount := scan.partialPixelCount
  totalPixelCount := coverage.width * coverage.height
  coveredBasisPoints := scan.coveredPixelCount * scopeBasisPoints / (coverage.width * coverage.height)
  coverageHistogram := scan.coverageHistogram
  boundingBoxBasisPoints := if scan.coveredPixelCount = 0 then none else some (scan.box coverage)
  centroidBasisPoints := if scan.coverageSum = 0 then none else
    some (centre scan.weightedX scan.coverageSum coverage.width, centre scan.weightedY scan.coverageSum coverage.height)
  weightedByCoverage := true

section

variable (hmatch : coverage.Matches)

include hmatch

/-- What is measured before the scan is in order where the buffer matches. -/
theorem matteCoverageStatistics_eq (hwidth : 0 < coverage.width) (hheight : 0 < coverage.height) :
    matteCoverageStatistics coverage = scanCoverage coverage >>= fun scan =>
      representable (2 ^ 64) "covered_basis_points" (scan.coveredPixelCount * scopeBasisPoints) >>= fun scaled =>
      representable (2 ^ 32) "covered_basis_points" (scaled / (coverage.width * coverage.height)) >>= fun coveredBasisPoints =>
      scan.boundingBox coverage >>= fun box =>
      scan.centroid coverage >>= fun centroid =>
      .ok { statisticsOf coverage scan with
        coveredBasisPoints
        boundingBoxBasisPoints := box
        centroidBasisPoints := centroid } := by
  have hlt := pixels_lt hmatch
  rw [matteCoverageStatistics, (refuse_eq_ok (u := ())).mpr (by omega), ok_bind, representable_eq (by omega), ok_bind,
    representable_eq (by omega), ok_bind, (refuse_eq_ok (u := ())).mpr (by rw [hmatch]; exact not_not_intro rfl)]
  rfl

theorem coverageSum_eq_zero (hcounts : scan.Counts coverage.samples) :
    scan.coverageSum = 0 ↔ scan.coveredPixelCount = 0 := by
  rw [hcounts.coverageSum, weigh_eq_zero, ← coveredCount_eq_zero hmatch, hcounts.covered, coveredCount,
    ← countP_samples hmatch fun code => code ≠ 0]

/-- The scan of an opaque grey raster is turned into its statistics, if the covered pixels can be scaled. -/
theorem matteCoverageStatistics_of_scan (hwidth : 0 < coverage.width) (hheight : 0 < coverage.height)
    (hscan : scanCoverage coverage = .ok scan) (hcounts : scan.Counts coverage.samples) (hscaled : scan.coveredPixelCount * scopeBasisPoints < 2 ^ 64) :
    matteCoverageStatistics coverage = .ok (statisticsOf coverage scan) := by
  have htotal : scan.coveredPixelCount ≤ coverage.width * coverage.height := by
    rw [hcounts.covered]
    refine countP_le_length.trans ?_
    rw [RgbaImage.samples, length_zip, length_places]
    exact Nat.min_le_left _ _
  have hpoints : scan.coveredPixelCount * scopeBasisPoints / (coverage.width * coverage.height) < 2 ^ 32 := by
    have hle : scan.coveredPixelCount * scopeBasisPoints / (coverage.width * coverage.height) ≤ scopeBasisPoints :=
      Nat.div_le_of_le_mul (Nat.mul_le_mul_right _ htotal)
    exact lt_of_le_of_lt hle (by decide)
  rw [matteCoverageStatistics_eq hmatch hwidth hheight, hscan, ok_bind, representable_eq hscaled, ok_bind, representable_eq hpoints, ok_bind]
  by_cases hnone : scan.coveredPixelCount = 0
  · have hsum := (coverageSum_eq_zero hmatch hcounts).mpr hnone
    rw [CoverageScan.boundingBox, if_pos hnone, ok_bind, CoverageScan.centroid, if_pos hsum, ok_bind, statisticsOf, if_pos hnone, if_pos hsum]
  · have hsum : scan.coverageSum ≠ 0 := fun hsum => hnone ((coverageSum_eq_zero hmatch hcounts).mp hsum)
    have hcovered : ∃ sample ∈ coverage.samples, sample.2 ≠ 0 := by
      by_contra hblank
      refine hsum ?_
      rw [hcounts.coverageSum, weigh_eq_zero]
      exact fun sample hsample => not_not.mp fun hcode => hblank ⟨sample, hsample, hcode⟩
    have hencloses := encloses_of_counts hwidth hcounts hcovered
    have hbelow : coverage.samples.length < 2 ^ 61 := by
      have hlt := pixels_lt hmatch
      rw [RgbaImage.samples, length_zip, length_places]
      omega
    have hsum' := weigh_le_length coverage.samples
    rw [← hcounts.coverageSum] at hsum'
    have hpos : 0 < scan.coverageSum := Nat.pos_of_ne_zero hsum
    have hright : scan.right < 2 ^ 32 := lt_of_le_of_lt hencloses.inWidth coverage.width_lt
    have hbottom : scan.bottom < 2 ^ 32 := lt_of_le_of_lt hencloses.inHeight coverage.height_lt
    have hx := (centre_of_counts coverage hcounts).1 hpos hwidth
    have hy := (centre_of_counts coverage hcounts).2 hpos hheight
    have hbox : scan.boundingBox coverage = .ok (some (scan.box coverage)) := by
      rw [CoverageScan.boundingBox, if_neg hnone]
      simp only [coverageBoundingBox, coverageSpan_eq hwidth hencloses.lt.1 hencloses.inWidth,
        coverageSpan_eq hheight hencloses.lt.2 hencloses.inHeight]
      rfl
    have hcentroid : scan.centroid coverage =
        .ok (some (centre scan.weightedX scan.coverageSum coverage.width, centre scan.weightedY scan.coverageSum coverage.height)) := by
      rw [CoverageScan.centroid, if_neg hsum,
        weightedCentre_eq hwidth hencloses.inWidth coverage.width_lt (by omega) (hcounts.horizontal.weighted_lt hright hbelow) hx.2,
        ok_bind, weightedCentre_eq hheight hencloses.inHeight coverage.height_lt (by omega) (hcounts.vertical.weighted_lt hbottom hbelow) hy.2,
        ok_bind]
    rw [hbox, ok_bind, hcentroid, ok_bind, statisticsOf, if_neg hnone, if_neg hsum]

theorem exists_covered (h : 0 < coverage.coveredCount) : ∃ sample ∈ coverage.samples, sample.2 ≠ 0 := by
  by_contra hblank
  refine Nat.ne_of_gt h ((coveredCount_eq_zero hmatch).mpr fun sample hsample => ?_)
  exact not_not.mp fun hcode => hblank ⟨sample, hsample, hcode⟩

end

/-- The pixels of a region that covers all covered pixels. -/
theorem toPixels_of_bounds {roi : NormalizedRoi} (hwidth : 0 < coverage.width) (hheight : 0 < coverage.height) (h : roi.Bounds coverage) :
    ∃ rect, roi.toPixels coverage.width coverage.height = .ok rect ∧ (∀ x y, coverage.CoveredAt x y → rect.Has x y) ∧
      ∀ roi' : NormalizedRoi, roi'.validate = .ok () → (∀ x y, coverage.CoveredAt x y → roi'.Covers coverage.width coverage.height x y) →
        ∃ rect', roi'.toPixels coverage.width coverage.height = .ok rect' ∧ rect.Within rect' := by
  have hpixels (roi : NormalizedRoi) (hvalid : roi.validate = .ok ()) :=
    toPixels_of_valid (validate_eq_ok.mp hvalid) hwidth coverage.width_lt hheight coverage.height_lt
  refine ⟨_, hpixels roi h.valid, fun x y hxy => has_of_covers (h.covers x y hxy), fun roi' hvalid hcovers => ?_⟩
  exact ⟨_, hpixels roi' hvalid, pixels_within (h.smallest roi' hcovers)⟩

theorem describes_of_scan (hmatch : coverage.Matches) (hwidth : 0 < coverage.width) (hheight : 0 < coverage.height)
    (hcounts : scan.Counts coverage.samples) : (statisticsOf coverage scan).Describes coverage where
  total := rfl
  covered := hcounts.covered.trans (countP_samples hmatch fun code => code ≠ 0)
  full := hcounts.full.trans (countP_samples hmatch fun code => code = 255)
  parts := hcounts.parts
  histogram := by
    rw [statisticsOf, hcounts.histogram, RgbaImage.samples, length_zip, length_places, length_map, length_chunks hmatch, Nat.min_self]
  bucket bucket hbucket := (hcounts.bucket bucket hbucket).trans (countP_samples hmatch fun code => (code >>> 4).toNat = bucket)
  basisPoints := rfl
  empty hnone := by
    have hzero : scan.coveredPixelCount = 0 := hnone ▸ hcounts.covered.trans (countP_samples hmatch fun code => code ≠ 0)
    exact ⟨if_pos hzero, if_pos ((coverageSum_eq_zero hmatch hcounts).mpr hzero)⟩
  box hsome := by
    have hpositive : scan.coveredPixelCount ≠ 0 := by
      rw [hcounts.covered.trans (countP_samples hmatch fun code => code ≠ 0)]
      exact Nat.ne_of_gt hsome
    have hsum : scan.coverageSum ≠ 0 := fun hsum => hpositive ((coverageSum_eq_zero hmatch hcounts).mp hsum)
    have hencloses := encloses_of_counts hwidth hcounts (exists_covered hmatch hsome)
    have hbounds := bounds_box hwidth hheight hencloses
    obtain ⟨hx, hy⟩ := centre_of_counts coverage hcounts
    refine ⟨scan.box coverage, if_neg hpositive, hbounds, toPixels_of_bounds hwidth hheight hbounds, _, if_neg hsum, ?_, ?_⟩
    · rw [rightBasisPoints_box hwidth hencloses]
      exact hx (Nat.pos_of_ne_zero hsum) hwidth
    · rw [bottomBasisPoints_box hheight hencloses]
      exact hy (Nat.pos_of_ne_zero hsum) hheight

/-- The one number that the statistics cannot always represent. -/
theorem overflow_iff (hmatch : coverage.Matches) (operation : String) :
    matteCoverageStatistics coverage = .error (.arithmeticOverflow operation) ↔
      operation = "covered_basis_points" ∧ coverage.OpaqueGrey ∧ 2 ^ 64 ≤ coverage.coveredCount * scopeBasisPoints := by
  by_cases hempty : coverage.width = 0 ∨ coverage.height = 0
  · have hnone : asChunks coverage.pixels = [] := by
      rw [← length_eq_zero_iff, length_chunks hmatch, Nat.mul_eq_zero]
      exact hempty
    rw [matteCoverageStatistics, refuse, if_pos hempty, coveredCount, hnone]
    constructor
    · intro h
      cases h
    · rintro ⟨-, -, h⟩
      rw [countP_nil] at h
      omega
  · rw [not_or] at hempty
    have hwidth := Nat.pos_of_ne_zero hempty.1
    have hheight := Nat.pos_of_ne_zero hempty.2
    rcases scanCoverage_cases hmatch with ⟨hgrey, scan, hscan, hcounts⟩ | ⟨hnot, error, hscan, hother⟩
    · have hcovered : scan.coveredPixelCount = coverage.coveredCount := hcounts.covered.trans (countP_samples hmatch fun code => code ≠ 0)
      by_cases hscaled : scan.coveredPixelCount * scopeBasisPoints < 2 ^ 64
      · rw [matteCoverageStatistics_of_scan hmatch hwidth hheight hscan hcounts hscaled, ← hcovered]
        constructor
        · intro h
          cases h
        · rintro ⟨-, -, h⟩
          omega
      · rw [matteCoverageStatistics_eq hmatch hwidth hheight, hscan, ok_bind, representable, if_neg hscaled, ← hcovered]
        constructor
        · intro h
          cases h
          exact ⟨rfl, hgrey, Nat.le_of_not_lt hscaled⟩
        · rintro ⟨rfl, -, -⟩
          rfl
    · rw [matteCoverageStatistics_eq hmatch hwidth hheight, hscan]
      constructor
      · intro h
        cases h
        exact absurd rfl (hother operation)
      · rintro ⟨-, hgrey, -⟩
        exact absurd hgrey hnot

end

/-- The statistics of a raster whose buffer matches its dimensions. The walk never leaves the range of its integers. The only number
that can be too large is that of the covered pixels in basis points, and every other opaque grey raster is described. -/
theorem matteCoverageStatistics_exact (coverage : RgbaImage) (hmatch : coverage.Matches) :
    (∀ walked scan rest, walked <+: places coverage.width coverage.height → coverage.walk walked = .ok (scan, rest) → scan.Fits) ∧
      (∀ operation, matteCoverageStatistics coverage = .error (.arithmeticOverflow operation) ↔
        operation = "covered_basis_points" ∧ coverage.OpaqueGrey ∧ 2 ^ 64 ≤ coverage.coveredCount * scopeBasisPoints) ∧
      (0 < coverage.width → 0 < coverage.height → coverage.OpaqueGrey → coverage.coveredCount * scopeBasisPoints < 2 ^ 64 →
        ∃ stats, matteCoverageStatistics coverage = .ok stats ∧ stats.Describes coverage) := by
  refine ⟨fun walked scan rest hwalked => fits_of_walk hmatch hwalked, overflow_iff hmatch, fun hwidth hheight hgrey hscaled => ?_⟩
  rcases scanCoverage_cases hmatch with ⟨-, scan, hscan, hcounts⟩ | ⟨hnot, -⟩
  · have hcovered : scan.coveredPixelCount = coverage.coveredCount := hcounts.covered.trans (countP_samples hmatch fun code => code ≠ 0)
    rw [← hcovered] at hscaled
    exact ⟨_, matteCoverageStatistics_of_scan hmatch hwidth hheight hscan hcounts hscaled, describes_of_scan hmatch hwidth hheight hcounts⟩
  · exact absurd hgrey hnot

/-- Three pixels in a row, of which the middle one is covered. -/
def middleRaster : RgbaImage where
  width := 3
  height := 1
  pixels := [0, 0, 0, 255, 9, 9, 9, 255, 0, 0, 0, 255]
  width_lt := by decide
  height_lt := by decide
  length_lt := by decide

theorem middleRaster_grey : middleRaster.OpaqueGrey := by
  show ∀ pixel ∈ asChunks middleRaster.pixels, pixel.alpha = 255 ∧ pixel.green = pixel.code ∧ pixel.blue = pixel.code
  decide

theorem matteCoverageStatistics_exact_middle : ∃ stats, matteCoverageStatistics middleRaster = .ok stats ∧ stats.Describes middleRaster :=
  (matteCoverageStatistics_exact middleRaster rfl).2.2 (by decide) (by decide) middleRaster_grey (by decide)

/-- A raster of more pixels than can be scaled, all of them covered. -/
def solidRaster : RgbaImage where
  width := 2 ^ 26
  height := 2 ^ 26
  pixels := List.replicate (2 ^ 52 * 4) 255
  width_lt := by decide
  height_lt := by decide
  length_lt := by
    rw [length_replicate]
    decide

theorem asChunks_replicate (n : ℕ) (code : UInt8) : asChunks (List.replicate (n * 4) code) = List.replicate n ⟨code, code, code, code⟩ := by
  induction n with
  | zero => rfl
  | succ n ih =>
    rw [replicate_succ (n := n), ← ih, Nat.succ_mul]
    rfl

/-- The middle one of three pixels is in the pixels of a region that are fewer than those of its bounding box. The pixels of the other
raster cannot be scaled. -/
theorem box_not_smallest :
    (¬ ∀ coverage : RgbaImage, coverage.Matches → 0 < coverage.width → 0 < coverage.height → coverage.OpaqueGrey → 0 < coverage.coveredCount →
      ∃ stats, matteCoverageStatistics coverage = .ok stats ∧ ∃ roi ∈ stats.boundingBoxBasisPoints,
        ∃ rect, roi.toPixels coverage.width coverage.height = .ok rect ∧ ∀ (roi' : NormalizedRoi) (rect' : PixelRoi),
          roi'.toPixels coverage.width coverage.height = .ok rect' → (∀ x y, coverage.CoveredAt x y → rect'.Has x y) → rect.Within rect') ∧
    ¬ ∀ (coverage : RgbaImage) (operation : String), coverage.Matches →
      matteCoverageStatistics coverage ≠ .error (.arithmeticOverflow operation) := by
  constructor
  · intro h
    obtain ⟨stats, hstats, roi, hroi, rect, hrect, hsmallest⟩ := h middleRaster rfl (by decide) (by decide) middleRaster_grey (by decide)
    have hbox : (matteCoverageStatistics middleRaster).map (·.boundingBoxBasisPoints) = .ok (some ⟨3333, 0, 3334, 10000⟩) := by decide +kernel
    rw [hstats] at hbox
    obtain rfl := Option.some.inj ((Except.ok.inj hbox).symm.trans hroi)
    have hwhole : (mk 3333 0 3334 10000).toPixels 3 1 = .ok ⟨0, 0, 3, 1⟩ := by decide +kernel
    have hsmaller : (mk 3334 0 3332 10000).toPixels 3 1 = .ok ⟨1, 0, 1, 1⟩ := by decide +kernel
    obtain rfl := Except.ok.inj (hwhole.symm.trans hrect)
    have hmiddle : ∀ x y, middleRaster.CoveredAt x y → (PixelRoi.mk 1 0 1 1).Has x y := by
      have hall : ∀ x < 3, ∀ y < 1, (∃ pixel ∈ (asChunks middleRaster.pixels)[y * 3 + x]?, pixel.code ≠ 0) → x = 1 := by decide +kernel
      rintro x y ⟨hx, hy, hcode⟩
      have hy' : y < 1 := hy
      obtain rfl := hall x hx y hy hcode
      exact ⟨by decide, by show 0 ≤ y; omega, by decide, by show y < 1; omega⟩
    have hhas := hsmallest _ _ hsmaller hmiddle 0 0 ⟨by decide, by decide, by decide, by decide⟩
    exact absurd hhas.left (by decide)
  · intro h
    have hchunks : asChunks solidRaster.pixels = List.replicate (2 ^ 52) ⟨255, 255, 255, 255⟩ := asChunks_replicate _ _
    have hmatch : solidRaster.Matches := by
      show (List.replicate (2 ^ 52 * 4) (255 : UInt8)).length = 2 ^ 26 * 2 ^ 26 * 4
      rw [length_replicate]
      decide
    refine h solidRaster "covered_basis_points" hmatch ((overflow_iff hmatch _).mpr ⟨rfl, fun pixel hpixel => ?_, ?_⟩)
    · rw [hchunks] at hpixel
      rw [eq_of_mem_replicate hpixel]
      exact ⟨rfl, rfl, rfl⟩
    · rw [coveredCount, hchunks, countP_replicate]
      decide

end Kinewright.Matte
