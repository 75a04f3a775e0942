import Mathlib.Algebra.Order.BigOperators.Group.List
import Mathlib.Order.Lattice.Nat
import Kinewright.Matte.Coverage

/-!
# What a scan has counted

A sample is a pixel's code at its place. The scan of a walk is a function of the samples that are walked over, and it does not depend on
what is behind them.
-/

namespace Kinewright.Matte

open Fallible List

/-- The code of a pixel, at its place. -/
abbrev Sample := (ℕ × ℕ) × UInt8

/-- The sum of a weight over the samples, by their codes. -/
def weigh (weight : ℕ × ℕ → ℕ) (samples : List Sample) : ℕ := (samples.map fun sample => sample.2.toNat * weight sample.1).sum

/-- The bounds and the weight of the samples on an axis. -/
structure Extends (axis : ℕ × ℕ → ℕ) (samples : List Sample) (first last weighted : ℕ) : Prop where
  inside : ∀ sample ∈ samples, sample.2 ≠ 0 → first ≤ axis sample.1 ∧ axis sample.1 < last
  ends : (∀ sample ∈ samples, sample.2 = 0) ∧ first = 2 ^ 32 - 1 ∧ last = 0 ∨
    (∃ sample ∈ samples, sample.2 ≠ 0 ∧ axis sample.1 = first) ∧ ∃ sample ∈ samples, sample.2 ≠ 0 ∧ axis sample.1 + 1 = last
  weighted : weighted = weigh (fun place => axis place * 2 + 1) samples

/-- What a scan has of the samples. -/
structure CoverageScan.Counts (scan : CoverageScan) (samples : List Sample) : Prop where
  covered : scan.coveredPixelCount = samples.countP fun sample => sample.2 ≠ 0
  full : scan.fullPixelCount = samples.countP fun sample => sample.2 = 255
  parts : scan.coveredPixelCount = scan.fullPixelCount + scan.partialPixelCount
  buckets : scan.coverageHistogram.length = matteCoverageHistogramBuckets
  histogram : scan.coverageHistogram.sum = samples.length
  bucket : ∀ bucket < matteCoverageHistogramBuckets,
    scan.coverageHistogram.getD bucket 0 = samples.countP fun sample : Sample => (sample.2 >>> 4).toNat = bucket
  coverageSum : scan.coverageSum = weigh (fun _ => 1) samples
  horizontal : Extends Prod.fst samples scan.left scan.right scan.weightedX
  vertical : Extends Prod.snd samples scan.top scan.bottom scan.weightedY

section

variable {axis weight : ℕ × ℕ → ℕ} {samples : List Sample} {first last weighted : ℕ} {place : ℕ × ℕ} {code : UInt8} {scan : CoverageScan}

theorem weigh_concat (weight : ℕ × ℕ → ℕ) (samples : List Sample) (place : ℕ × ℕ) (code : UInt8) :
    weigh weight (samples ++ [(place, code)]) = weigh weight samples + code.toNat * weight place := by
  rw [weigh, map_append, sum_append]
  rfl

/-- A pixel that is not covered changes no bounds. -/
theorem Extends.blank (h : Extends axis samples first last weighted) (place : ℕ × ℕ) : Extends axis (samples ++ [(place, 0)]) first last weighted where
  inside sample hsample hcovered := by
    rcases mem_append.mp hsample with hsample | hsample
    · exact h.inside sample hsample hcovered
    · obtain rfl := mem_singleton.mp hsample
      exact absurd rfl hcovered
  ends := by
    rcases h.ends with ⟨hnone, hfirst, hlast⟩ | ⟨⟨low, hlow, hlow'⟩, high, hhigh, hhigh'⟩
    · refine .inl ⟨fun sample hsample => ?_, hfirst, hlast⟩
      rcases mem_append.mp hsample with hsample | hsample
      · exact hnone sample hsample
      · rw [mem_singleton.mp hsample]
    · exact .inr ⟨⟨low, mem_append_left _ hlow, hlow'⟩, high, mem_append_left _ hhigh, hhigh'⟩
  weighted := by
    rw [weigh_concat, h.weighted]
    show _ = _ + 0 * _
    omega

/-- A covered pixel is in the bounds that it moves. -/
theorem Extends.covered (h : Extends axis samples first last weighted) (hcode : code ≠ 0) (hplace : axis place < 2 ^ 32) :
    Extends axis (samples ++ [(place, code)]) (min first (axis place)) (max last (axis place + 1))
      (weighted + code.toNat * (axis place * 2 + 1)) where
  inside sample hsample hcovered := by
    rcases mem_append.mp hsample with hsample | hsample
    · have hinside := h.inside sample hsample hcovered
      omega
    · obtain rfl := mem_singleton.mp hsample
      show min first (axis place) ≤ axis place ∧ axis place < max last (axis place + 1)
      omega
  ends := by
    have hnew : (place, code) ∈ samples ++ [(place, code)] := mem_append_right _ (mem_singleton_self _)
    refine .inr ?_
    rcases h.ends with ⟨-, hfirst, hlast⟩ | ⟨⟨low, hlow, hlow', hlowest⟩, high, hhigh, hhigh', hhighest⟩
    · exact ⟨⟨_, hnew, hcode, by show axis place = _; omega⟩, _, hnew, hcode, by show axis place + 1 = _; omega⟩
    · constructor
      · by_cases hmoves : axis place ≤ first
        · exact ⟨_, hnew, hcode, by show axis place = _; omega⟩
        · exact ⟨low, mem_append_left _ hlow, hlow', by omega⟩
      · by_cases hmoves : last ≤ axis place + 1
        · exact ⟨_, hnew, hcode, by show axis place + 1 = _; omega⟩
        · exact ⟨high, mem_append_left _ hhigh, hhigh', by omega⟩
  weighted := by rw [weigh_concat, h.weighted]

theorem sum_modify {bucket : ℕ} {histogram : List ℕ} (h : bucket < histogram.length) :
    (histogram.modify bucket (· + 1)).sum = histogram.sum + 1 := by
  induction histogram generalizing bucket with
  | nil => cases h
  | cons count histogram ih =>
    cases bucket with
    | zero =>
      rw [modify_zero_cons, sum_cons, sum_cons]
      omega
    | succ bucket =>
      rw [modify_succ_cons, sum_cons, sum_cons, ih (Nat.lt_of_succ_lt_succ h)]
      omega

theorem getD_modify {bucket : ℕ} {histogram : List ℕ} (h : bucket < histogram.length) (other : ℕ) :
    (histogram.modify other (· + 1)).getD bucket 0 = histogram.getD bucket 0 + if other = bucket then 1 else 0 := by
  rw [getD_eq_getElem?_getD, getD_eq_getElem?_getD, getElem?_modify, getElem?_eq_getElem h]
  split
  · rfl
  · rfl

theorem bucket_lt (code : UInt8) : (code >>> 4).toNat < matteCoverageHistogramBuckets := by
  have hlt := code.toNat_lt
  show code.toNat >>> 4 < 16
  omega

theorem counts_start : CoverageScan.start.Counts [] where
  covered := rfl
  full := rfl
  parts := rfl
  buckets := rfl
  histogram := rfl
  bucket bucket hbucket := by
    rw [CoverageScan.start, getD_eq_getElem?_getD, getElem?_replicate_of_lt hbucket]
    rfl
  coverageSum := rfl
  horizontal := ⟨by simp, .inl ⟨by simp, rfl, rfl⟩, rfl⟩
  vertical := ⟨by simp, .inl ⟨by simp, rfl, rfl⟩, rfl⟩

/-- One pixel more. -/
theorem CoverageScan.Counts.take (h : scan.Counts samples) (hx : place.1 < 2 ^ 32) (hy : place.2 < 2 ^ 32) (code : UInt8) :
    (scan.take place code).Counts (samples ++ [(place, code)]) := by
  have hindex : (code >>> 4).toNat < scan.coverageHistogram.length := h.buckets ▸ bucket_lt code
  have hbucket (bucket : ℕ) (hlt : bucket < matteCoverageHistogramBuckets) :
      (scan.coverageHistogram.modify (code >>> 4).toNat (· + 1)).getD bucket 0 =
        (samples ++ [(place, code)]).countP fun sample : Sample => (sample.2 >>> 4).toNat = bucket := by
    rw [getD_modify (h.buckets ▸ hlt), h.bucket bucket hlt, countP_append, countP_singleton]
    simp
  have hsum : (scan.coverageHistogram.modify (code >>> 4).toNat (· + 1)).sum = (samples ++ [(place, code)]).length := by
    rw [sum_modify hindex, h.histogram, length_append]
    rfl
  rw [CoverageScan.take]
  split
  · rename_i hblank
    subst hblank
    refine ⟨?_, ?_, h.parts, by rw [length_modify, h.buckets], hsum, hbucket, ?_, h.horizontal.blank place, h.vertical.blank place⟩
    · rw [countP_append, ← h.covered]
      rfl
    · rw [countP_append, ← h.full]
      rfl
    · rw [weigh_concat, ← h.coverageSum]
      rfl
  · rename_i hcode
    refine ⟨?_, ?_, ?_, by rw [length_modify, h.buckets], hsum, hbucket, ?_, h.horizontal.covered hcode hx, h.vertical.covered hcode hy⟩
    · rw [countP_append, ← h.covered, countP_singleton, if_pos (decide_eq_true hcode)]
    · rw [countP_append, ← h.full, countP_singleton]
      simp only [decide_eq_true_eq]
      split
      · rfl
      · rfl
    · have hparts := h.parts
      show scan.coveredPixelCount + 1 = (if code = 255 then scan.fullPixelCount + 1 else scan.fullPixelCount) +
        if code = 255 then scan.partialPixelCount else scan.partialPixelCount + 1
      split
      · omega
      · omega
    · rw [weigh_concat, ← h.coverageSum, Nat.mul_one]

end

/-! ## The walk over the places -/

/-- A pixel that is an opaque grey coverage sample. -/
def Pixel.OpaqueGrey (pixel : Pixel) : Prop := pixel.alpha = 255 ∧ pixel.green = pixel.code ∧ pixel.blue = pixel.code

namespace RgbaImage

/-- Every pixel of the raster is an opaque grey coverage sample. -/
def OpaqueGrey (coverage : RgbaImage) : Prop := ∀ pixel ∈ asChunks coverage.pixels, pixel.OpaqueGrey

/-- The buffer has four bytes for each pixel. -/
def Matches (coverage : RgbaImage) : Prop := coverage.pixels.length = coverage.width * coverage.height * 4

/-- The pixel at a place is covered. -/
def CoveredAt (coverage : RgbaImage) (x y : ℕ) : Prop :=
  x < coverage.width ∧ y < coverage.height ∧ ∃ pixel ∈ (asChunks coverage.pixels)[y * coverage.width + x]?, pixel.code ≠ 0

/-- How many pixels are covered. -/
def coveredCount (coverage : RgbaImage) : ℕ := (asChunks coverage.pixels).countP fun pixel => pixel.code ≠ 0

/-- The samples of the raster, row by row. -/
def samples (coverage : RgbaImage) : List Sample := (places coverage.width coverage.height).zip ((asChunks coverage.pixels).map Pixel.code)

end RgbaImage

section

variable {samples : List Sample} {scan : CoverageScan} {walked : List (ℕ × ℕ)} {chunks : List Pixel} {coverage : RgbaImage} {width height : ℕ}

theorem length_asChunks (pixels : List UInt8) : (asChunks pixels).length = pixels.length / 4 := by
  fun_induction asChunks pixels with
  | case1 code green blue alpha rest ih =>
    simp only [length_cons]
    omega
  | case2 pixels hshort =>
    rcases pixels with _ | ⟨code, _ | ⟨green, _ | ⟨blue, _ | ⟨alpha, rest⟩⟩⟩⟩
    · simp
    · simp
    · simp
    · simp
    · exact absurd rfl (hshort code green blue alpha rest)

/-- A pixel is taken at its place, or it is not an opaque grey coverage sample. -/
theorem scanPixel_cases (scan : CoverageScan) (pixel : Pixel) (chunks : List Pixel) (place : ℕ × ℕ) :
    pixel.OpaqueGrey ∧ scanPixel (scan, pixel :: chunks) place = .ok (scan.take place pixel.code, chunks) ∨
      ¬ pixel.OpaqueGrey ∧ ∃ error, scanPixel (scan, pixel :: chunks) place = .error error ∧
        ∀ operation, error ≠ .arithmeticOverflow operation := by
  simp only [scanPixel]
  by_cases halpha : pixel.alpha = 255
  · by_cases hgrey : pixel.green = pixel.code ∧ pixel.blue = pixel.code
    · refine .inl ⟨⟨halpha, hgrey⟩, ?_⟩
      rw [refuse, if_neg (not_not_intro halpha), ok_bind, refuse, if_neg (by tauto), ok_bind]
    · refine .inr ⟨fun hok => hgrey hok.2, .notGrey place.1 place.2 pixel.code pixel.green pixel.blue "red, green, and blue must be equal",
        ?_, fun operation h => by cases h⟩
      rw [refuse, if_neg (not_not_intro halpha), refuse, if_pos (by tauto)]
      rfl
  · refine .inr ⟨fun hok => halpha hok.1, .alphaNotOpaque place.1 place.2 pixel.alpha 255, ?_, fun operation h => by cases h⟩
    rw [refuse, if_pos halpha]
    rfl

/-- A walk takes the samples of the places one by one, or it stops at a pixel that is not an opaque grey coverage sample. By induction
on the places. -/
theorem foldlM_scanPixel (h : scan.Counts samples) (hplaces : ∀ place ∈ walked, place.1 < 2 ^ 32 ∧ place.2 < 2 ^ 32)
    (hlength : walked.length ≤ chunks.length) :
    (∃ scan', walked.foldlM scanPixel (scan, chunks) = .ok (scan', chunks.drop walked.length) ∧
        scan'.Counts (samples ++ walked.zip (chunks.map Pixel.code)) ∧ ∀ pixel ∈ chunks.take walked.length, pixel.OpaqueGrey) ∨
      ∃ error, walked.foldlM scanPixel (scan, chunks) = .error error ∧ (∀ operation, error ≠ .arithmeticOverflow operation) ∧
        ∃ pixel ∈ chunks, ¬ pixel.OpaqueGrey := by
  induction walked generalizing scan samples chunks with
  | nil =>
    rw [zip_nil_left, append_nil]
    exact .inl ⟨scan, rfl, h, by simp⟩
  | cons place walked ih =>
    obtain ⟨⟨hx, hy⟩, hrest⟩ := forall_mem_cons.mp hplaces
    cases chunks with
    | nil => cases hlength
    | cons pixel chunks =>
      rw [foldlM_cons]
      rcases scanPixel_cases scan pixel chunks place with ⟨hgrey, hstep⟩ | ⟨hnot, error, hstep, hother⟩
      · rw [hstep]
        rcases ih (h.take hx hy pixel.code) hrest (Nat.le_of_succ_le_succ hlength) with ⟨scan', hwalk, hcounts, hall⟩ | ⟨error, hwalk, hother, bad, hbad, hnot⟩
        · rw [append_assoc] at hcounts
          exact .inl ⟨scan', hwalk, hcounts, forall_mem_cons.mpr ⟨hgrey, hall⟩⟩
        · exact .inr ⟨error, hwalk, hother, bad, mem_cons_of_mem _ hbad, hnot⟩
      · rw [hstep]
        exact .inr ⟨error, rfl, hother, pixel, mem_cons_self, hnot⟩

/-- Row by row, the places are those of a count. -/
theorem places_eq (hwidth : 0 < width) (height : ℕ) : places width height = (List.range (height * width)).map fun i => (i % width, i / width) := by
  induction height with
  | zero => simp [places]
  | succ height ih =>
    rw [places] at ih
    rw [places, range_succ, flatMap_append, ih, Nat.succ_mul, range_add, map_append, map_map]
    refine congrArg _ ?_
    rw [flatMap_singleton]
    refine map_congr_left fun x hx => ?_
    have hlt := mem_range.mp hx
    show (x, height) = ((height * width + x) % width, (height * width + x) / width)
    rw [Nat.mul_comm, Nat.mul_add_mod, Nat.mod_eq_of_lt hlt, Nat.mul_add_div hwidth, Nat.div_eq_of_lt hlt, Nat.add_zero]

theorem mem_places {place : ℕ × ℕ} : place ∈ places width height ↔ place.1 < width ∧ place.2 < height := by
  obtain ⟨x, y⟩ := place
  simp only [places, mem_flatMap, mem_map, mem_range, Prod.mk.injEq]
  constructor
  · rintro ⟨y', hy, x', hx, rfl, rfl⟩
    exact ⟨hx, hy⟩
  · rintro ⟨hx, hy⟩
    exact ⟨y, hy, x, hx, rfl, rfl⟩

theorem length_places (width height : ℕ) : (places width height).length = width * height := by
  rw [places]
  simp [Nat.mul_comm]

theorem length_chunks (hmatch : coverage.Matches) : (asChunks coverage.pixels).length = coverage.width * coverage.height := by
  rw [length_asChunks, hmatch]
  omega

/-- A covered sample is a covered pixel. -/
theorem mem_samples (hwidth : 0 < coverage.width) {x y : ℕ} :
    (∃ code, ((x, y), code) ∈ coverage.samples ∧ code ≠ 0) ↔ coverage.CoveredAt x y := by
  have hplace (i : ℕ) : (places coverage.width coverage.height)[i]? = some (x, y) ↔
      x < coverage.width ∧ y < coverage.height ∧ i = y * coverage.width + x := by
    rw [places_eq hwidth, getElem?_map, Option.map_eq_some_iff]
    constructor
    · rintro ⟨i', hi, heq⟩
      obtain ⟨hlt, hi'⟩ := List.getElem?_eq_some_iff.mp hi
      rw [length_range] at hlt
      rw [getElem_range] at hi'
      subst hi'
      obtain ⟨rfl, rfl⟩ := Prod.mk.inj heq
      exact ⟨Nat.mod_lt _ hwidth, Nat.div_lt_of_lt_mul (by rwa [Nat.mul_comm]), (Nat.div_add_mod' _ _).symm⟩
    · rintro ⟨hx, hy, rfl⟩
      have hlt : y * coverage.width + x < coverage.height * coverage.width := by
        have hle := Nat.mul_le_mul_right coverage.width (Nat.succ_le_of_lt hy)
        rw [Nat.succ_mul] at hle
        omega
      refine ⟨_, getElem?_range hlt, ?_⟩
      rw [Nat.mul_comm, Nat.mul_add_mod, Nat.mod_eq_of_lt hx, Nat.mul_add_div hwidth, Nat.div_eq_of_lt hx, Nat.add_zero]
  simp only [RgbaImage.CoveredAt, RgbaImage.samples, mem_iff_getElem?, getElem?_zip_eq_some, hplace, getElem?_map,
    Option.map_eq_some_iff]
  constructor
  · rintro ⟨_, ⟨_, ⟨hx, hy, rfl⟩, pixel, hpixel, rfl⟩, hcode⟩
    exact ⟨hx, hy, pixel, hpixel, hcode⟩
  · rintro ⟨hx, hy, pixel, hpixel, hcode⟩
    exact ⟨_, ⟨_, ⟨hx, hy, rfl⟩, pixel, hpixel, rfl⟩, hcode⟩

end

end Kinewright.Matte
