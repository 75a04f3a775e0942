import Mathlib.Algebra.Order.BigOperators.Group.List
import Mathlib.Algebra.Order.Ring.Nat

/-!
# Words and the blank text around them
-/

namespace Text

open List

/-- `char::is_whitespace`: the property `White_Space` of Unicode. -/
def isWhitespace (c : Char) : Bool :=
  let n := c.toNat
  (9 ≤ n && n ≤ 13) || n = 0x20 || n = 0x85 || n = 0xA0 || n = 0x1680 ||
    (0x2000 ≤ n && n ≤ 0x200A) || n = 0x2028 || n = 0x2029 || n = 0x202F || n = 0x205F || n = 0x3000

/-- `str::trim` leaves nothing of the text. -/
def isBlank (text : String) : Bool := text.toList.all isWhitespace

/-- `str::trim`. -/
def trim (text : String) : String :=
  String.ofList ((text.toList.dropWhile isWhitespace).reverse.dropWhile isWhitespace).reverse

/-- `str::split_whitespace`. -/
def splitWhitespace (text : String) : List String :=
  ((text.toList.splitOnP isWhitespace).filter fun word => !word.isEmpty).map String.ofList

theorem sum_splitOnPPrepend (p : Char → Bool) (chars acc : List Char) :
    ((List.splitOnPPrepend p chars acc).map fun word => word.length + 1).sum = chars.length + acc.length + 1 := by
  induction chars generalizing acc with
  | nil => simp
  | cons c chars ih =>
    by_cases hc : p c = true
    · rw [splitOnPPrepend_cons_pos hc, map_cons, sum_cons, ← splitOnPPrepend_nil_right, ih,
        length_reverse, length_nil, length_cons]
      omega
    · rw [splitOnPPrepend_cons_neg (Bool.not_eq_true _ ▸ hc), ih, length_cons, length_cons]
      omega

/-- The words of a text, with one character between them, are no longer than the text. -/
theorem sum_splitWhitespace_le (text : String) :
    ((splitWhitespace text).map fun word => word.length + 1).sum ≤ text.length + 1 := by
  have hlength : (fun word : String => word.length + 1) ∘ String.ofList = fun word => word.length + 1 := by
    funext word
    rw [Function.comp_apply, String.length_ofList]
  have hsub := (filter_sublist (p := fun word : List Char => !word.isEmpty)
    (l := text.toList.splitOnP isWhitespace)).map fun word => word.length + 1
  have hsum := sum_splitOnPPrepend isWhitespace text.toList []
  rw [String.length_toList, length_nil] at hsum
  rw [splitWhitespace, map_map, hlength, ← hsum]
  exact hsub.sum_le_sum fun _ _ => Nat.zero_le _

end Text
