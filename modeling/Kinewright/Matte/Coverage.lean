import Kinewright.Matte.Roi

/-!
# Coverage statistics

`matte_coverage_statistics` of `media.rs`. A coverage raster is walked once, row by row, and what it has is counted, bounded and
weighted. Natural numbers stand for the machine integers, with a check wherever the source has one. What the walk adds without a check
is bounded by the theorems on the scan.
-/

namespace Kinewright.Matte

open Fallible

/-- A raster of bytes. No vector is longer than `isize::MAX`. -/
structure RgbaImage where
  width : ℕ
  height : ℕ
  pixels : List UInt8
  width_lt : width < 2 ^ 32
  height_lt : height < 2 ^ 32
  length_lt : pixels.length < 2 ^ 63

inductive MatteCoverageError
  | invalidDimensions (observed allowed : String)
  | bufferLengthMismatch (observed allowed : ℕ)
  | alphaNotOpaque (x y : ℕ) (observed allowed : UInt8)
  | notGrey (x y : ℕ) (red green blue : UInt8) (allowed : String)
  | arithmeticOverflow (operation : String)
deriving DecidableEq

/-- The four bytes of a pixel. -/
structure Pixel where
  code : UInt8
  green : UInt8
  blue : UInt8
  alpha : UInt8
deriving DecidableEq

/-- `as_chunks::<4>()`. -/
def asChunks : List UInt8 → List Pixel
  | code :: green :: blue :: alpha :: rest => { code, green, blue, alpha } :: asChunks rest
  | _ => []

def matteCoverageHistogramBuckets : ℕ := 16

/-- Deterministic integer statistics of one matte coverage raster. -/
structure MatteCoverageStatistics where
  coveredPixelCount : ℕ
  fullPixelCount : ℕ
  partialPixelCount : ℕ
  totalPixelCount : ℕ
  coveredBasisPoints : ℕ
  coverageHistogram : List ℕ
  boundingBoxBasisPoints : Option NormalizedRoi
  centroidBasisPoints : Option (ℕ × ℕ)
  weightedByCoverage : Bool
deriving DecidableEq

/-- Per-pixel coverage evidence accumulated by `scanCoverage`. -/
structure CoverageScan where
  coveredPixelCount : ℕ
  fullPixelCount : ℕ
  partialPixelCount : ℕ
  coverageHistogram : List ℕ
  left : ℕ
  top : ℕ
  right : ℕ
  bottom : ℕ
  coverageSum : ℕ
  weightedX : ℕ
  weightedY : ℕ

namespace CoverageScan

def start : CoverageScan where
  coveredPixelCount := 0
  fullPixelCount := 0
  partialPixelCount := 0
  coverageHistogram := List.replicate matteCoverageHistogramBuckets 0
  left := 2 ^ 32 - 1
  top := 2 ^ 32 - 1
  right := 0
  bottom := 0
  coverageSum := 0
  weightedX := 0
  weightedY := 0

/-- The scan with a pixel more. -/
def take (scan : CoverageScan) (place : ℕ × ℕ) (code : UInt8) : CoverageScan :=
  let counted := { scan with coverageHistogram := scan.coverageHistogram.modify (code >>> 4).toNat (· + 1) }
  if code = 0 then counted
  else { counted with
    coveredPixelCount := scan.coveredPixelCount + 1
    fullPixelCount := if code = 255 then scan.fullPixelCount + 1 else scan.fullPixelCount
    partialPixelCount := if code = 255 then scan.partialPixelCount else scan.partialPixelCount + 1
    left := min scan.left place.1
    top := min scan.top place.2
    right := max scan.right (place.1 + 1)
    bottom := max scan.bottom (place.2 + 1)
    coverageSum := scan.coverageSum + code.toNat
    weightedX := scan.weightedX + code.toNat * (place.1 * 2 + 1)
    weightedY := scan.weightedY + code.toNat * (place.2 * 2 + 1) }

end CoverageScan

/-- One turn of the walk: the next pixel is taken at its place, unless it is not an opaque grey coverage sample. -/
def scanPixel (state : CoverageScan × List Pixel) (place : ℕ × ℕ) : Except MatteCoverageError (CoverageScan × List Pixel) :=
  match state.2 with
  | [] => .error (.arithmeticOverflow "pixel buffer length")
  | pixel :: samples => do
    refuse (pixel.alpha ≠ 255) (.alphaNotOpaque place.1 place.2 pixel.alpha 255)
    refuse (pixel.green ≠ pixel.code ∨ pixel.blue ≠ pixel.code)
      (.notGrey place.1 place.2 pixel.code pixel.green pixel.blue "red, green, and blue must be equal")
    .ok (state.1.take place pixel.code, samples)

/-- The places of a raster, row by row. -/
def places (width height : ℕ) : List (ℕ × ℕ) := (List.range height).flatMap fun y => (List.range width).map fun x => (x, y)

/-- The walk over some places. -/
def RgbaImage.walk (coverage : RgbaImage) (walked : List (ℕ × ℕ)) : Except MatteCoverageError (CoverageScan × List Pixel) :=
  walked.foldlM scanPixel (.start, asChunks coverage.pixels)

/-- Walk a validated coverage raster once, rejecting any pixel that is not an opaque grey coverage sample. -/
def scanCoverage (coverage : RgbaImage) : Except MatteCoverageError CoverageScan :=
  (coverage.walk (places coverage.width coverage.height)).map Prod.fst

/-- A number that a machine integer of the limit can hold. -/
def representable (limit : ℕ) (operation : String) (n : ℕ) : Except MatteCoverageError ℕ :=
  if n < limit then .ok n else .error (.arithmeticOverflow operation)

/-- One axis of the bounding box, returning its start and extent. -/
def coverageSpan (start stop extent : ℕ) : Except MatteCoverageError (ℕ × ℕ) := do
  let startBasisPoints := start * scopeBasisPoints / extent
  let endBasisPoints := (stop * scopeBasisPoints + (extent - 1)) / extent
  let startBasisPoints ← representable (2 ^ 32) "bounding_box_basis_points" startBasisPoints
  let endBasisPoints ← representable (2 ^ 32) "bounding_box_basis_points" endBasisPoints
  refuse (endBasisPoints < startBasisPoints) (.arithmeticOverflow "bounding_box_basis_points")
  .ok (startBasisPoints, endBasisPoints - startBasisPoints)

/-- Convert a half-open pixel rectangle to a normalized basis-point rectangle, flooring each start boundary and ceiling each exclusive
end boundary. -/
def coverageBoundingBox (horizontal vertical : ℕ × ℕ × ℕ) : Except MatteCoverageError NormalizedRoi := do
  let (left, right, width) := horizontal
  let (top, bottom, height) := vertical
  let (xBasisPoints, widthBasisPoints) ← coverageSpan left right width
  let (yBasisPoints, heightBasisPoints) ← coverageSpan top bottom height
  .ok { xBasisPoints, yBasisPoints, widthBasisPoints, heightBasisPoints }

/-- The weighted sum over the coverage in basis points of the extent, rounded half away from zero. -/
def weightedCentre (weighted coverageSum extent : ℕ) : Except MatteCoverageError ℕ := do
  let numerator ← representable (2 ^ 128) "centroid_basis_points" (weighted * (scopeBasisPoints / 2))
  let denominator ← representable (2 ^ 128) "centroid_basis_points" (coverageSum * extent)
  let doubledDenominator ← representable (2 ^ 128) "centroid_basis_points" (denominator * 2)
  let doubled ← representable (2 ^ 128) "centroid_basis_points" (numerator * 2)
  let sum ← representable (2 ^ 128) "centroid_basis_points" (doubled + denominator)
  representable (2 ^ 63) "centroid_basis_points" (sum / doubledDenominator)

/-- The bounding box, unless the coverage is empty. -/
def CoverageScan.boundingBox (scan : CoverageScan) (coverage : RgbaImage) : Except MatteCoverageError (Option NormalizedRoi) :=
  if scan.coveredPixelCount = 0 then .ok none
  else (coverageBoundingBox (scan.left, scan.right, coverage.width) (scan.top, scan.bottom, coverage.height)).map some

/-- The centroid, unless the coverage is empty. -/
def CoverageScan.centroid (scan : CoverageScan) (coverage : RgbaImage) : Except MatteCoverageError (Option (ℕ × ℕ)) :=
  if scan.coverageSum = 0 then .ok none
  else do
    let x ← weightedCentre scan.weightedX scan.coverageSum coverage.width
    let y ← weightedCentre scan.weightedY scan.coverageSum coverage.height
    .ok (some (x, y))

/-- Measure a matte coverage raster. -/
def matteCoverageStatistics (coverage : RgbaImage) : Except MatteCoverageError MatteCoverageStatistics := do
  refuse (coverage.width = 0 ∨ coverage.height = 0)
    (.invalidDimensions (toString coverage.width ++ "x" ++ toString coverage.height) "width and height must both be non-zero")
  let totalPixelCount ← representable (2 ^ 64) "total_pixel_count" (coverage.width * coverage.height)
  let allowedBytes ← representable (2 ^ 64) "pixel buffer length" (totalPixelCount * 4)
  refuse (allowedBytes ≠ coverage.pixels.length) (.bufferLengthMismatch coverage.pixels.length allowedBytes)
  let scan ← scanCoverage coverage
  let scaled ← representable (2 ^ 64) "covered_basis_points" (scan.coveredPixelCount * scopeBasisPoints)
  let coveredBasisPoints ← representable (2 ^ 32) "covered_basis_points" (scaled / totalPixelCount)
  let boundingBoxBasisPoints ← scan.boundingBox coverage
  let centroidBasisPoints ← scan.centroid coverage
  .ok {
    coveredPixelCount := scan.coveredPixelCount
    fullPixelCount := scan.fullPixelCount
    partialPixelCount := scan.partialPixelCount
    totalPixelCount
    coveredBasisPoints
    coverageHistogram := scan.coverageHistogram
    boundingBoxBasisPoints
    centroidBasisPoints
    weightedByCoverage := true }

end Kinewright.Matte
