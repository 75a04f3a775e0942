import Mathlib.Algebra.Order.Ring.Nat
import Mathlib.Logic.Function.Iterate

/-!
# SHA-256

The hash function of FIPS 180-4 over whole bytes. The constants are computed from the primes that they stand for.
-/

namespace Fips180

open List

/-- The working variables, and the words of a hash value. -/
structure Words where
  (a b c d e f g h : UInt32)
deriving DecidableEq

instance : Add Words where
  add x y := ⟨x.a + y.a, x.b + y.b, x.c + y.c, x.d + y.d, x.e + y.e, x.f + y.f, x.g + y.g, x.h + y.h⟩

/-! ## Functions and constants -/

def rotr (n x : UInt32) : UInt32 := x >>> n ||| x <<< (32 - n)

def ch (x y z : UInt32) : UInt32 := (x &&& y) ^^^ (~~~x &&& z)

def maj (x y z : UInt32) : UInt32 := (x &&& y) ^^^ (x &&& z) ^^^ (y &&& z)

def bigSigma0 (x : UInt32) : UInt32 := rotr 2 x ^^^ rotr 13 x ^^^ rotr 22 x

def bigSigma1 (x : UInt32) : UInt32 := rotr 6 x ^^^ rotr 11 x ^^^ rotr 25 x

def sigma0 (x : UInt32) : UInt32 := rotr 7 x ^^^ rotr 18 x ^^^ x >>> 3

def sigma1 (x : UInt32) : UInt32 := rotr 17 x ^^^ rotr 19 x ^^^ x >>> 10

/-- The first 64 primes. -/
def primes : List ℕ := (List.range 312).filter fun n => 2 ≤ n ∧ ∀ d ∈ List.range 18, 2 ≤ d → d < n → n % d ≠ 0

/-- The integer part of a root below `2 ^ 36`, from its highest bit. -/
def root (degree n : ℕ) : ℕ :=
  (List.range 36).foldr (fun bit r => if (r + 2 ^ bit) ^ degree ≤ n then r + 2 ^ bit else r) 0

/-- The first 32 bits of the fractional part of a root. -/
def fraction (degree n : ℕ) : UInt32 := UInt32.ofNat (root degree (n * 2 ^ (32 * degree)))

/-- Of the cube roots of the first 64 primes. -/
def constants : List UInt32 := primes.map (fraction 3)

/-- The initial hash value, of the square roots of the first eight primes. -/
def initial : Words :=
  ⟨fraction 2 2, fraction 2 3, fraction 2 5, fraction 2 7, fraction 2 11, fraction 2 13, fraction 2 17, fraction 2 19⟩

/-! ## Blocks -/

/-- The first blocks of a text. -/
def blocksOf : ℕ → List UInt8 → List (List UInt8)
  | 0, _ => []
  | n + 1, bytes => bytes.take 64 :: blocksOf n (bytes.drop 64)

/-- The whole blocks of a text. -/
def blocks (bytes : List UInt8) : List (List UInt8) := blocksOf (bytes.length / 64) bytes

/-- What is left behind the whole blocks. -/
def rest (bytes : List UInt8) : List UInt8 := bytes.drop (64 * (bytes.length / 64))

/-- The bytes of a number, the most significant first. -/
def beBytes (count n : ℕ) : List UInt8 := (List.range count).reverse.map fun i => UInt8.ofNat (n / 256 ^ i)

/-- The zeros behind the end mark: the fewest that leave eight bytes of a block. -/
def zeros (length : ℕ) : ℕ := (119 - length % 64) % 64

def pad (message : List UInt8) : List UInt8 :=
  message ++ 0x80 :: (List.replicate (zeros message.length) 0 ++ beBytes 8 (8 * message.length))

theorem blocksOf_add (n k : ℕ) (bytes : List UInt8) : blocksOf (n + k) bytes = blocksOf n bytes ++ blocksOf k (bytes.drop (64 * n)) := by
  induction n generalizing bytes with
  | zero => rw [Nat.zero_add, drop_zero, blocksOf, nil_append]
  | succ n ih => rw [Nat.succ_add, blocksOf, blocksOf, ih, drop_drop, cons_append, Nat.mul_succ, Nat.add_comm 64]

theorem blocksOf_append {n : ℕ} {bytes : List UInt8} (h : 64 * n ≤ bytes.length) (more : List UInt8) :
    blocksOf n (bytes ++ more) = blocksOf n bytes := by
  induction n generalizing bytes with
  | zero => rfl
  | succ n ih =>
    rw [blocksOf, blocksOf, take_append_of_le_length (by omega), drop_append_of_le_length (by omega),
      ih (by rw [length_drop]; omega)]

theorem length_rest (bytes : List UInt8) : (rest bytes).length = bytes.length % 64 := by
  rw [rest, length_drop]
  omega

/-- More bytes join what was left, and cut no block that was whole. -/
theorem blocks_append (bytes more : List UInt8) : blocks (bytes ++ more) = blocks bytes ++ blocks (rest bytes ++ more) := by
  have hcount : (bytes ++ more).length / 64 = bytes.length / 64 + (rest bytes ++ more).length / 64 := by
    rw [length_append, length_append, length_rest]
    omega
  rw [blocks, hcount, blocksOf_add, blocksOf_append (by omega), drop_append_of_le_length (by omega)]
  rfl

theorem rest_append (bytes more : List UInt8) : rest (bytes ++ more) = rest (rest bytes ++ more) := by
  have hcount : 64 * ((bytes ++ more).length / 64) = 64 * (bytes.length / 64) + 64 * ((rest bytes ++ more).length / 64) := by
    rw [length_append, length_append, length_rest]
    omega
  rw [rest, hcount, ← drop_drop, drop_append_of_le_length (by omega)]
  rfl

theorem blocks_of_lt {bytes : List UInt8} (h : bytes.length < 64) : blocks bytes = [] ∧ rest bytes = bytes := by
  rw [blocks, rest, Nat.div_eq_of_lt h]
  exact ⟨rfl, rfl⟩

theorem blocks_of_length {block : List UInt8} (h : block.length = 64) : blocks block = [block] ∧ rest block = [] := by
  rw [blocks, rest, h]
  exact ⟨by rw [blocksOf, blocksOf, take_of_length_le (Nat.le_of_eq h)], by rw [drop_eq_nil_of_le (Nat.le_of_eq h)]⟩

theorem length_of_mem_blocks {bytes block : List UInt8} (h : block ∈ blocks bytes) : block.length = 64 := by
  have hall (n : ℕ) (bytes : List UInt8) (hn : 64 * n ≤ bytes.length) : ∀ block ∈ blocksOf n bytes, block.length = 64 := by
    induction n generalizing bytes with
    | zero => exact fun _ h => absurd h not_mem_nil
    | succ n ih =>
      refine forall_mem_cons.mpr ⟨?_, ih _ ?_⟩
      · rw [length_take]
        omega
      · rw [length_drop]
        omega
  exact hall _ bytes (Nat.mul_div_le _ _) block h

/-! ## The computation -/

/-- The words of a block. -/
def words (block : List UInt8) : List UInt32 :=
  (List.range 16).map fun t =>
    let byte (i : ℕ) := (block.getD (4 * t + i) 0).toUInt32
    byte 0 <<< 24 ||| byte 1 <<< 16 ||| byte 2 <<< 8 ||| byte 3

/-- The next word of the message schedule. -/
def extend (w : List UInt32) : List UInt32 :=
  let word (back : ℕ) := w.getD (w.length - back) 0
  w ++ [sigma1 (word 2) + word 7 + sigma0 (word 15) + word 16]

def schedule (block : List UInt8) : List UInt32 := extend^[48] (words block)

theorem length_words (block : List UInt8) : (words block).length = 16 := by rw [words, length_map, length_range]

theorem length_extend (block : List UInt8) (n : ℕ) : (extend^[n] (words block)).length = 16 + n := by
  induction n with
  | zero => exact length_words block
  | succ n ih => rw [Function.iterate_succ_apply', extend, length_append, ih, length_singleton, Nat.add_assoc]

def round (v : Words) (kw : UInt32 × UInt32) : Words :=
  let t1 := v.h + bigSigma1 v.e + ch v.e v.f v.g + kw.1 + kw.2
  let t2 := bigSigma0 v.a + maj v.a v.b v.c
  ⟨t1 + t2, v.a, v.b, v.c, v.d + t1, v.e, v.f, v.g⟩

/-- The next hash value. -/
def compress (hash : Words) (block : List UInt8) : Words := hash + (constants.zip (schedule block)).foldl round hash

def Words.bytes (v : Words) : List UInt8 :=
  [v.a, v.b, v.c, v.d, v.e, v.f, v.g, v.h].flatMap fun word => beBytes 4 word.toNat

def sha256 (message : List UInt8) : List UInt8 := ((blocks (pad message)).foldl compress initial).bytes

example : sha256 [97, 98, 99] =
    [0xba, 0x78, 0x16, 0xbf, 0x8f, 0x01, 0xcf, 0xea, 0x41, 0x41, 0x40, 0xde, 0x5d, 0xae, 0x22, 0x23,
      0xb0, 0x03, 0x61, 0xa3, 0x96, 0x17, 0x7a, 0x9c, 0xb4, 0x10, 0xff, 0x61, 0xf2, 0x00, 0x15, 0xad] := by decide +kernel

end Fips180
