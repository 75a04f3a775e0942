import Mathlib.Algebra.Order.Ring.Int
import Kinewright.Lib.Fallible
import Kinewright.Lib.Grid

/-!
# Regions in basis points

`NormalizedRoi` of `scopes.rs`. A boundary of a region is a position on a grid of ten thousand steps. A start is carried to the pixels
by rounding down and an end by rounding up, so a region that covers a pixel as a whole is carried to pixels that have it.
-/

namespace Kinewright.Matte

open Fallible Grid

def scopeBasisPoints : ℕ := 10000

structure NormalizedRoi where
  xBasisPoints : ℕ
  yBasisPoints : ℕ
  widthBasisPoints : ℕ
  heightBasisPoints : ℕ
deriving DecidableEq

inductive NormalizedRoiError
  | outOfRange (field : String) (value : ℕ)
  | empty
  | overflow
  | outsideFrame
  | invalidSourceResolution (width height : ℕ)
  | emptyAfterPixelConversion
deriving DecidableEq

/-- Pixel-space half-open ROI returned by deterministic normalized conversion. -/
structure PixelRoi where
  x : ℕ
  y : ℕ
  width : ℕ
  height : ℕ
deriving DecidableEq

namespace NormalizedRoi

/-- Where the region ends. -/
def rightBasisPoints (roi : NormalizedRoi) : ℕ := roi.xBasisPoints + roi.widthBasisPoints

def bottomBasisPoints (roi : NormalizedRoi) : ℕ := roi.yBasisPoints + roi.heightBasisPoints

/-- Validate normalized bounds before a source resolution is known. -/
def validate (roi : NormalizedRoi) : Except NormalizedRoiError Unit := do
  let values := [("x_basis_points", roi.xBasisPoints), ("y_basis_points", roi.yBasisPoints),
    ("width_basis_points", roi.widthBasisPoints), ("height_basis_points", roi.heightBasisPoints)]
  all (fun value => refuse (scopeBasisPoints < value.2) (.outOfRange value.1 value.2)) values
  refuse (roi.widthBasisPoints = 0 ∨ roi.heightBasisPoints = 0) .empty
  refuse (2 ^ 32 ≤ roi.rightBasisPoints) .overflow
  refuse (2 ^ 32 ≤ roi.bottomBasisPoints) .overflow
  refuse (scopeBasisPoints < roi.rightBasisPoints ∨ scopeBasisPoints < roi.bottomBasisPoints) .outsideFrame

/-- `u64::saturating_mul`. -/
def saturatingMul (a b : ℕ) : ℕ := min (a * b) (2 ^ 64 - 1)

/-- A number below a limit. -/
def fits (limit n : ℕ) : Except NormalizedRoiError ℕ := if n < limit then .ok n else .error .overflow

/-- Convert the normalized rectangle to source pixels. Start boundaries use floor and exclusive end boundaries use ceil. -/
def toPixels (roi : NormalizedRoi) (sourceWidth sourceHeight : ℕ) : Except NormalizedRoiError PixelRoi := do
  roi.validate
  refuse (sourceWidth = 0 ∨ sourceHeight = 0) (.invalidSourceResolution sourceWidth sourceHeight)
  let x := saturatingMul roi.xBasisPoints sourceWidth / scopeBasisPoints
  let y := saturatingMul roi.yBasisPoints sourceHeight / scopeBasisPoints
  let rightBasisPoints ← fits (2 ^ 32) roi.rightBasisPoints
  let bottomBasisPoints ← fits (2 ^ 32) roi.bottomBasisPoints
  let rightNumerator ← fits (2 ^ 64) (saturatingMul rightBasisPoints sourceWidth + (scopeBasisPoints - 1))
  let bottomNumerator ← fits (2 ^ 64) (saturatingMul bottomBasisPoints sourceHeight + (scopeBasisPoints - 1))
  let right := rightNumerator / scopeBasisPoints
  let bottom := bottomNumerator / scopeBasisPoints
  let x ← fits (2 ^ 32) x
  let y ← fits (2 ^ 32) y
  let right ← fits (2 ^ 32) right
  let bottom ← fits (2 ^ 32) bottom
  refuse (right ≤ x ∨ bottom ≤ y) .emptyAfterPixelConversion
  refuse (sourceWidth < right ∨ sourceHeight < bottom) .outsideFrame
  .ok { x, y, width := right - x, height := bottom - y }

/-- The boundaries of a region are in order and inside the frame. -/
structure Valid (roi : NormalizedRoi) : Prop where
  right : roi.xBasisPoints < roi.rightBasisPoints
  bottom : roi.yBasisPoints < roi.bottomBasisPoints
  inWidth : roi.rightBasisPoints ≤ scopeBasisPoints
  inHeight : roi.bottomBasisPoints ≤ scopeBasisPoints

/-- The region covers a pixel of a frame as a whole. -/
structure Covers (roi : NormalizedRoi) (width height x y : ℕ) : Prop where
  left : roi.xBasisPoints * width ≤ x * scopeBasisPoints
  top : roi.yBasisPoints * height ≤ y * scopeBasisPoints
  right : (x + 1) * scopeBasisPoints ≤ roi.rightBasisPoints * width
  bottom : (y + 1) * scopeBasisPoints ≤ roi.bottomBasisPoints * height

/-- A region inside another one. -/
structure Within (roi roi' : NormalizedRoi) : Prop where
  left : roi'.xBasisPoints ≤ roi.xBasisPoints
  top : roi'.yBasisPoints ≤ roi.yBasisPoints
  right : roi.rightBasisPoints ≤ roi'.rightBasisPoints
  bottom : roi.bottomBasisPoints ≤ roi'.bottomBasisPoints

end NormalizedRoi

/-- The pixel is in the region. -/
structure PixelRoi.Has (rect : PixelRoi) (x y : ℕ) : Prop where
  left : rect.x ≤ x
  top : rect.y ≤ y
  right : x < rect.x + rect.width
  bottom : y < rect.y + rect.height

/-- The pixels of one region are in another one. -/
def PixelRoi.Within (rect rect' : PixelRoi) : Prop := ∀ x y, rect.Has x y → rect'.Has x y

namespace NormalizedRoi

section

variable {roi roi' : NormalizedRoi} {width height x y : ℕ}

theorem validate_eq_ok : roi.validate = .ok () ↔ roi.Valid := by
  rw [validate]
  simp only [then_eq_ok, refuse_eq_ok, all_eq_ok, List.forall_mem_cons]
  constructor
  · rintro ⟨⟨-, -, -, -, -⟩, hempty, -, -, hframe⟩
    rw [rightBasisPoints, bottomBasisPoints] at hframe
    exact ⟨by rw [rightBasisPoints]; omega, by rw [bottomBasisPoints]; omega, by rw [rightBasisPoints]; omega,
      by rw [bottomBasisPoints]; omega⟩
  · rintro ⟨hright, hbottom, hwidth, hheight⟩
    rw [scopeBasisPoints] at *
    rw [rightBasisPoints] at *
    rw [bottomBasisPoints] at *
    refine ⟨⟨?_, ?_, ?_, ?_, List.forall_mem_nil _⟩, ?_, ?_, ?_, ?_⟩
    all_goals omega

/-- The pixels that a region is carried to. -/
def pixels (roi : NormalizedRoi) (width height : ℕ) : PixelRoi where
  x := floor width scopeBasisPoints roi.xBasisPoints
  y := floor height scopeBasisPoints roi.yBasisPoints
  width := ceil width scopeBasisPoints roi.rightBasisPoints - floor width scopeBasisPoints roi.xBasisPoints
  height := ceil height scopeBasisPoints roi.bottomBasisPoints - floor height scopeBasisPoints roi.yBasisPoints

theorem saturatingMul_eq (hx : x ≤ scopeBasisPoints) (hwidth : width < 2 ^ 32) : saturatingMul x width = x * width := by
  have hle : x * width ≤ scopeBasisPoints * 2 ^ 32 := Nat.mul_le_mul hx hwidth.le
  rw [scopeBasisPoints] at hle
  exact min_eq_left (by omega)

theorem ceil_le (width : ℕ) (hx : x ≤ scopeBasisPoints) : ceil width scopeBasisPoints x ≤ width := by
  have hmono := ceil_mono (a := width) (d := scopeBasisPoints) hx
  have hwhole : ceil width scopeBasisPoints scopeBasisPoints = width := by
    rw [ceil, scopeBasisPoints]
    omega
  omega

/-- A valid region is carried to the pixels of a frame. -/
theorem toPixels_of_valid (h : roi.Valid) (hwidth : 0 < width) (hwidth' : width < 2 ^ 32) (hheight : 0 < height) (hheight' : height < 2 ^ 32) :
    roi.toPixels width height = .ok (roi.pixels width height) := by
  have hx := floor_lt_ceil hwidth (show 0 < scopeBasisPoints by decide) h.right
  have hy := floor_lt_ceil hheight (show 0 < scopeBasisPoints by decide) h.bottom
  have hright := ceil_le width h.inWidth
  have hbottom := ceil_le height h.inHeight
  have hfits (limit n : ℕ) (hn : n < limit) : fits limit n = .ok n := if_pos hn
  have hsmall (z : ℕ) (hz : z ≤ scopeBasisPoints) : z < 2 ^ 32 := lt_of_le_of_lt hz (by decide)
  have hscale (z extent : ℕ) (hz : z ≤ scopeBasisPoints) (hextent : extent < 2 ^ 32) : z * extent + (scopeBasisPoints - 1) < 2 ^ 64 := by
    have hle := Nat.mul_le_mul hz hextent.le
    rw [scopeBasisPoints] at hle ⊢
    omega
  have hleft : roi.xBasisPoints ≤ scopeBasisPoints := h.right.le.trans h.inWidth
  have htop : roi.yBasisPoints ≤ scopeBasisPoints := h.bottom.le.trans h.inHeight
  unfold toPixels
  rw [validate_eq_ok.mpr h, ok_bind, (refuse_eq_ok (u := ())).mpr (show ¬ (width = 0 ∨ height = 0) by omega), ok_bind]
  rw [hfits _ _ (hsmall _ h.inWidth), ok_bind, hfits _ _ (hsmall _ h.inHeight), ok_bind]
  rw [saturatingMul_eq hleft hwidth', saturatingMul_eq htop hheight', saturatingMul_eq h.inWidth hwidth', saturatingMul_eq h.inHeight hheight']
  rw [hfits _ _ (hscale _ _ h.inWidth hwidth'), ok_bind, hfits _ _ (hscale _ _ h.inHeight hheight'), ok_bind]
  change (fits (2 ^ 32) (floor width scopeBasisPoints roi.xBasisPoints) >>= fun x =>
    fits (2 ^ 32) (floor height scopeBasisPoints roi.yBasisPoints) >>= fun y =>
    fits (2 ^ 32) (ceil width scopeBasisPoints roi.rightBasisPoints) >>= fun right =>
    fits (2 ^ 32) (ceil height scopeBasisPoints roi.bottomBasisPoints) >>= fun bottom =>
    refuse (right ≤ x ∨ bottom ≤ y) .emptyAfterPixelConversion >>= fun _ =>
    refuse (width < right ∨ height < bottom) .outsideFrame >>= fun _ =>
    .ok (PixelRoi.mk x y (right - x) (bottom - y))) = .ok (roi.pixels width height)
  rw [hfits _ _ (by omega), ok_bind, hfits _ _ (by omega), ok_bind, hfits _ _ (by omega), ok_bind, hfits _ _ (by omega), ok_bind]
  rw [(refuse_eq_ok (u := ())).mpr (by omega), (refuse_eq_ok (u := ())).mpr (by omega)]
  rfl

/-- A pixel that a region covers as a whole is one of its pixels. -/
theorem has_of_covers (h : roi.Covers width height x y) : (roi.pixels width height).Has x y := by
  have hfloor {z w i : ℕ} (hz : z * w ≤ i * scopeBasisPoints) : floor w scopeBasisPoints z ≤ i := by
    exact Nat.div_le_of_le_mul (by rwa [Nat.mul_comm scopeBasisPoints])
  have hceil {z w i : ℕ} (hz : (i + 1) * scopeBasisPoints ≤ z * w) : i < ceil w scopeBasisPoints z := by
    have hge := ceil_mul_ge (a := w) (x := z) (show 0 < scopeBasisPoints by decide)
    exact Nat.le_of_mul_le_mul_right (hz.trans hge) (by decide)
  have hleft := hfloor h.left
  have htop := hfloor h.top
  have hright := hceil h.right
  have hbottom := hceil h.bottom
  refine ⟨hleft, htop, ?_, ?_⟩
  · show x < floor _ _ _ + (ceil _ _ _ - floor _ _ _)
    omega
  · show y < floor _ _ _ + (ceil _ _ _ - floor _ _ _)
    omega

theorem pixels_within (h : roi.Within roi') : (roi.pixels width height).Within (roi'.pixels width height) := by
  rintro x y ⟨hleft, htop, hright, hbottom⟩
  have hx := floor_mono (a := width) (d := scopeBasisPoints) h.left
  have hy := floor_mono (a := height) (d := scopeBasisPoints) h.top
  have hx' := ceil_mono (a := width) (d := scopeBasisPoints) h.right
  have hy' := ceil_mono (a := height) (d := scopeBasisPoints) h.bottom
  simp only [pixels] at hleft htop hright hbottom
  constructor
  all_goals
    simp only [pixels]
    omega

end

end NormalizedRoi

end Kinewright.Matte
