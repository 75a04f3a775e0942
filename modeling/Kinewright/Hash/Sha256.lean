import Mathlib.Tactic.SplitIfs
import Kinewright.Lib.Fips180

/-!
# The content hash

`kinewright-hash`: SHA-256 with a buffer for the bytes that fill no block yet. An operation returns nothing where the code would
go out of the range of an array or a slice.
-/

namespace Kinewright.Hash

open Fips180 (Words rotr blocks rest beBytes)
open List
open Fips180
open Option

def INITIAL_STATE : Words :=
  ⟨0x6a09e667, 0xbb67ae85, 0x3c6ef372, 0xa54ff53a, 0x510e527f, 0x9b05688c, 0x1f83d9ab, 0x5be0cd19⟩

def ROUND_CONSTANTS : List UInt32 :=
  [0x428a2f98, 0x71374491, 0xb5c0fbcf, 0xe9b5dba5, 0x3956c25b, 0x59f111f1, 0x923f82a4, 0xab1c5ed5,
    0xd807aa98, 0x12835b01, 0x243185be, 0x550c7dc3, 0x72be5d74, 0x80deb1fe, 0x9bdc06a7, 0xc19bf174,
    0xe49b69c1, 0xefbe4786, 0x0fc19dc6, 0x240ca1cc, 0x2de92c6f, 0x4a7484aa, 0x5cb0a9dc, 0x76f988da,
    0x983e5152, 0xa831c66d, 0xb00327c8, 0xbf597fc7, 0xc6e00bf3, 0xd5a79147, 0x06ca6351, 0x14292967,
    0x27b70a85, 0x2e1b2138, 0x4d2c6dfc, 0x53380d13, 0x650a7354, 0x766a0abb, 0x81c2c92e, 0x92722c85,
    0xa2bfe8a1, 0xa81a664b, 0xc24b8b70, 0xc76c51a3, 0xd192e819, 0xd6990624, 0xf40e3585, 0x106aa070,
    0x19a4c116, 0x1e376c08, 0x2748774c, 0x34b0bcb5, 0x391c0cb3, 0x4ed8aa4a, 0x5b9cca4f, 0x682e6ff3,
    0x748f82ee, 0x78a5636f, 0x84c87814, 0x8cc70208, 0x90befffa, 0xa4506ceb, 0xbef9a3f7, 0xc67178f2]

theorem tables_eq : INITIAL_STATE = initial ∧ ROUND_CONSTANTS = constants := by decide +kernel

/-! ## Compression -/

/-- One round of the schedule in `compress_software`. -/
def expand (schedule : List UInt32) (index : ℕ) : Option (List UInt32) := do
  let w15 ← schedule[index - 15]?
  let w2 ← schedule[index - 2]?
  let w16 ← schedule[index - 16]?
  let w7 ← schedule[index - 7]?
  let s0 := rotr 7 w15 ^^^ rotr 18 w15 ^^^ w15 >>> 3
  let s1 := rotr 17 w2 ^^^ rotr 19 w2 ^^^ w2 >>> 10
  if index < schedule.length then some (schedule.set index (w16 + s0 + w7 + s1)) else none

/-- One round of the working words in `compress_software`. -/
def turn (schedule : List UInt32) (v : Words) (index : ℕ) : Option Words := do
  let k ← ROUND_CONSTANTS[index]?
  let w ← schedule[index]?
  let sum1 := rotr 6 v.e ^^^ rotr 11 v.e ^^^ rotr 25 v.e
  let choose := (v.e &&& v.f) ^^^ (~~~v.e &&& v.g)
  let temporary1 := v.h + sum1 + choose + k + w
  let sum0 := rotr 2 v.a ^^^ rotr 13 v.a ^^^ rotr 22 v.a
  let majority := (v.a &&& v.b) ^^^ (v.a &&& v.c) ^^^ (v.b &&& v.c)
  let temporary2 := sum0 + majority
  some ⟨temporary1 + temporary2, v.a, v.b, v.c, v.d + temporary1, v.e, v.f, v.g⟩

def compressSoftware (state : Words) (block : List UInt8) : Option Words := do
  let schedule ← (List.range' 16 48).foldlM expand (words block ++ List.replicate 48 0)
  let v ← (List.range 64).foldlM (turn schedule) state
  some (state + v)

/-- A read below the length of the words that are known. -/
theorem getElem?_known {w zeros : List UInt32} {i : ℕ} (h : i < w.length) : (w ++ zeros)[i]? = some (w.getD i 0) := by
  rw [getElem?_append_left h, getD_eq_getElem?_getD, getElem?_eq_getElem h, getD_some]

/-- By induction on the rounds: the known words grow into the zeros. -/
theorem foldlM_expand (block : List UInt8) {n : ℕ} (hn : n ≤ 48) :
    (List.range' 16 n).foldlM expand (words block ++ List.replicate 48 0) =
      some (extend^[n] (words block) ++ List.replicate (48 - n) 0) := by
  induction n with
  | zero => rfl
  | succ n ih =>
    obtain ⟨w, hw⟩ : ∃ w, w = extend^[n] (words block) := ⟨_, rfl⟩
    have hlength : w.length = 16 + n := hw ▸ length_extend block n
    have hzeros : List.replicate (48 - n) (0 : UInt32) = 0 :: List.replicate (48 - (n + 1)) 0 := by
      rw [← replicate_succ]
      congr 1
      omega
    rw [range'_1_concat, foldlM_append, ih (by omega), Function.iterate_succ_apply', ← hw, hzeros]
    simp only [foldlM_cons, foldlM_nil, bind_eq_bind, bind_some, expand]
    rw [getElem?_known (by omega), getElem?_known (by omega), getElem?_known (by omega), getElem?_known (by omega)]
    simp only [bind_some]
    rw [if_pos (by rw [length_append, length_cons]; omega), ← hlength, set_append_right _ _ (Nat.le_refl _), Nat.sub_self,
      extend, append_assoc]
    simp only [sigma0, sigma1, bind_some]
    ac_rfl

/-- By induction on the rounds, of which each reads the constant and the word of its index. -/
theorem foldlM_turn {schedule : List UInt32} (hlength : schedule.length = 64) (state : Words) {n : ℕ} (hn : n ≤ 64) :
    (List.range n).foldlM (turn schedule) state = some (((ROUND_CONSTANTS.zip schedule).take n).foldl Fips180.round state) := by
  induction n with
  | zero => rfl
  | succ n ih =>
    have hconstants : n < ROUND_CONSTANTS.length := hn
    have hschedule : n < schedule.length := by omega
    have hzip : n < (ROUND_CONSTANTS.zip schedule).length := by
      rw [length_zip]
      exact Nat.lt_min.mpr ⟨hconstants, hschedule⟩
    rw [range_succ, foldlM_append, ih (by omega), take_succ_eq_append_getElem hzip, foldl_append, getElem_zip]
    simp only [foldlM_cons, foldlM_nil, bind_eq_bind, bind_some, turn]
    rw [getElem?_eq_getElem hconstants, getElem?_eq_getElem hschedule]
    rfl

theorem compressSoftware_eq (state : Words) (block : List UInt8) :
    compressSoftware state block = some (compress state block) := by
  have hlength : (Fips180.schedule block).length = 64 := length_extend block 48
  rw [compressSoftware, foldlM_expand block (Nat.le_refl _)]
  simp only [bind_eq_bind, bind_some, Nat.sub_self, replicate_zero, append_nil]
  rw [← Fips180.schedule, foldlM_turn hlength state (Nat.le_refl _), take_of_length_le, tables_eq.2]
  · rfl
  · rw [length_zip, hlength]
    exact Nat.min_le_right _ _

/-- The block routine of the processor, where it has one: it computes what the software does. -/
structure Hardware where
  tryCompress : Words → List (List UInt8) → Option Words
  eq_software : ∀ state blocks result, (∀ block ∈ blocks, block.length = 64) → tryCompress state blocks = some result →
    blocks.foldlM compressSoftware state = some result

/-! ## The hasher -/

/-- `[u8; 64]`. -/
abbrev Block := { bytes : List UInt8 // bytes.length = 64 }

/-- `copy_from_slice` to a range that starts somewhere in the block. -/
def write (block : Block) (start : ℕ) (bytes : List UInt8) : Option Block :=
  if h : start + bytes.length ≤ 64 then
    some ⟨block.1.take start ++ bytes ++ block.1.drop (start + bytes.length), by
      rw [length_append, length_append, length_take, length_drop, block.2]
      omega⟩
  else none

/-- `fill(0)` of a range. -/
def clear (block : Block) (start stop : ℕ) : Option Block :=
  if start ≤ stop then write block start (List.replicate (stop - start) 0) else none

structure Sha256 where
  state : Words
  buffer : Block
  bufferLen : ℕ
  messageLen : ℕ

namespace Sha256

def new : Sha256 := ⟨INITIAL_STATE, ⟨List.replicate 64 0, rfl⟩, 0, 0⟩

variable (hw : Hardware)

def compressBlocks (hasher : Sha256) (blocks : List (List UInt8)) : Option Sha256 :=
  if blocks = [] then some hasher
  else do
    let state ← (hw.tryCompress hasher.state blocks).elim (blocks.foldlM compressSoftware hasher.state) some
    some { hasher with state }

/-- The end of `update`: the blocks of the input, and what it leaves for the buffer. -/
def absorb (hasher : Sha256) (input : List UInt8) : Option Sha256 := do
  let hasher ← hasher.compressBlocks hw (blocks input)
  let buffer ← write hasher.buffer 0 (rest input)
  some { hasher with buffer, bufferLen := (rest input).length }

/-- The buffer is compressed when it is full. -/
def flush (hasher : Sha256) : Option Sha256 :=
  if hasher.bufferLen = 64 then do
    let hasher ← hasher.compressBlocks hw [hasher.buffer]
    some { hasher with bufferLen := 0 }
  else some hasher

/-- `update`, once the length is counted: the buffer is filled up, and what is left of the input is absorbed. -/
def feed (hasher : Sha256) (input : List UInt8) : Option Sha256 :=
  if hasher.bufferLen = 0 then hasher.absorb hw input
  else if 64 < hasher.bufferLen then none
  else do
    let wanted := min (64 - hasher.bufferLen) input.length
    let buffer ← write hasher.buffer hasher.bufferLen (input.take wanted)
    let hasher ← { hasher with buffer, bufferLen := hasher.bufferLen + wanted }.flush hw
    if input.drop wanted = [] then some hasher else hasher.absorb hw (input.drop wanted)

def update (hasher : Sha256) (input : List UInt8) : Option Sha256 :=
  { hasher with messageLen := min (hasher.messageLen + input.length) (2 ^ 64 - 1) }.feed hw input

/-- The first block of the padding, when the length does not fit behind the end mark. -/
def spill (hasher : Sha256) : Option Sha256 :=
  if 56 < hasher.bufferLen then do
    let buffer ← clear hasher.buffer hasher.bufferLen 64
    let hasher ← { hasher with buffer }.compressBlocks hw [buffer]
    some { hasher with bufferLen := 0 }
  else some hasher

def finalize (hasher : Sha256) : Option (List UInt8) := do
  let bitLen := min (8 * hasher.messageLen) (2 ^ 64 - 1)
  let buffer ← write hasher.buffer hasher.bufferLen [0x80]
  let hasher ← { hasher with buffer, bufferLen := hasher.bufferLen + 1 }.spill hw
  let buffer ← clear hasher.buffer hasher.bufferLen 56
  let buffer ← write buffer 56 (beBytes 8 bitLen)
  let hasher ← { hasher with buffer }.compressBlocks hw [buffer]
  some hasher.state.bytes

end Sha256

/-- `{byte:02x}` of each byte. -/
def hex (digest : List UInt8) : String :=
  String.ofList (digest.flatMap fun byte => [Nat.digitChar (byte.toNat / 16), Nat.digitChar (byte.toNat % 16)])

section

variable (hw : Hardware)

/-- The loop of `sha256_reader`, over what the reads return before the end of the file. -/
def readAll {ε : Type} (hasher : Sha256) : List (Except ε (List UInt8)) → Option (Except ε Sha256)
  | [] => some (.ok hasher)
  | .error error :: _ => some (.error error)
  | .ok bytes :: reads => if bytes = [] then some (.ok hasher) else if 1024 * 1024 < bytes.length then none
    else do readAll (← hasher.update hw bytes) reads

def sha256Reader {ε : Type} (reads : List (Except ε (List UInt8))) : Option (Except ε String) := do
  match ← readAll hw Sha256.new reads with
  | .ok hasher => return .ok (hex (← hasher.finalize hw))
  | .error error => return .error error

def sha256Bytes (bytes : List UInt8) : Option String := do
  let hasher ← Sha256.new.update hw bytes
  return hex (← hasher.finalize hw)

end

/-! ## What the hasher holds -/

theorem foldlM_compressSoftware (state : Words) (blocks : List (List UInt8)) :
    blocks.foldlM compressSoftware state = some (blocks.foldl compress state) := by
  induction blocks generalizing state with
  | nil => rfl
  | cons block blocks ih => rw [foldlM_cons, compressSoftware_eq, bind_eq_bind, bind_some, ih, foldl_cons]

theorem Sha256.compressBlocks_eq (hw : Hardware) (hasher : Sha256) {blocks : List (List UInt8)}
    (hblocks : ∀ block ∈ blocks, block.length = 64) :
    hasher.compressBlocks hw blocks = some { hasher with state := blocks.foldl compress hasher.state } := by
  rw [compressBlocks]
  split_ifs with hempty
  · rw [hempty, foldl_nil]
  · have hsoftware := foldlM_compressSoftware hasher.state blocks
    cases hcase : hw.tryCompress hasher.state blocks with
    | none => rw [elim_none, hsoftware, bind_eq_bind, bind_some]
    | some result =>
      rw [elim_some, bind_eq_bind, bind_some]
      have heq := (hw.eq_software _ _ _ hblocks hcase).symm.trans hsoftware
      rw [Option.some.inj heq]

theorem write_eq_some (block : Block) (start : ℕ) (bytes : List UInt8) (h : start + bytes.length ≤ 64) :
    ∃ block', write block start bytes = some block' ∧
      block'.1 = block.1.take start ++ bytes ++ block.1.drop (start + bytes.length) := by
  rw [write, dif_pos h]
  exact ⟨_, rfl, rfl⟩

theorem clear_eq_some (block : Block) {start stop : ℕ} (h : start ≤ stop) (hstop : stop ≤ 64) :
    ∃ block', clear block start stop = some block' ∧
      block'.1 = block.1.take start ++ List.replicate (stop - start) 0 ++ block.1.drop stop := by
  have hlength : start + (List.replicate (stop - start) (0 : UInt8)).length = stop := by
    rw [length_replicate]
    omega
  obtain ⟨block', hwrite, hbytes⟩ := write_eq_some block start _ (Nat.le_trans (Nat.le_of_eq hlength) hstop)
  rw [hlength] at hbytes
  exact ⟨block', by rw [clear, if_pos h, hwrite], hbytes⟩

/-- The hasher has compressed the blocks of the message, and holds what they leave of it. -/
structure Holds (hasher : Sha256) (message : List UInt8) : Prop where
  state : hasher.state = (blocks message).foldl compress initial
  bufferLen : hasher.bufferLen = (rest message).length
  buffer : hasher.buffer.1.take hasher.bufferLen = rest message

namespace Holds

variable {hasher : Sha256} {message : List UInt8} (hw : Hardware)

section

variable (h : Holds hasher message)

include h

theorem lt : hasher.bufferLen < 64 := by
  rw [h.bufferLen, length_rest]
  exact Nat.mod_lt _ (by decide)

theorem absorb (hempty : hasher.bufferLen = 0) (input : List UInt8) :
    ∃ later, hasher.absorb hw input = some later ∧ Holds later (message ++ input) ∧ later.messageLen = hasher.messageLen := by
  have hrest : rest message = [] := eq_nil_of_length_eq_zero (h.bufferLen.symm.trans hempty)
  have hlt := length_rest input
  obtain ⟨buffer, hwrite, hbytes⟩ := write_eq_some hasher.buffer 0 (rest input) (by omega)
  rw [Sha256.absorb, Sha256.compressBlocks_eq hw hasher fun _ => length_of_mem_blocks, bind_eq_bind, bind_some, hwrite]
  refine ⟨_, rfl, ⟨?_, ?_, ?_⟩, rfl⟩
  · rw [blocks_append, hrest, nil_append, foldl_append, h.state]
  · rw [rest_append, hrest, nil_append]
  · rw [rest_append, hrest, nil_append, hbytes, take_zero, nil_append, take_left]

/-- A full buffer is the next block of the message. -/
theorem flush {buffer : Block} (input : List UInt8) (hfull : hasher.bufferLen + input.length ≤ 64)
    (hbuffer : buffer.1.take (hasher.bufferLen + input.length) = rest message ++ input) :
    ∃ later, Sha256.flush hw { hasher with buffer, bufferLen := hasher.bufferLen + input.length } = some later ∧
      Holds later (message ++ input) ∧ later.messageLen = hasher.messageLen ∧
      (hasher.bufferLen + input.length = 64 → later.bufferLen = 0) := by
  have hlength : (rest message ++ input).length = hasher.bufferLen + input.length := by rw [length_append, h.bufferLen]
  rw [Sha256.flush]
  split_ifs with hcase
  · dsimp only at hcase
    rw [hcase, take_of_length_le (Nat.le_of_eq buffer.2)] at hbuffer
    obtain ⟨hblocks, hrest⟩ := blocks_of_length (hlength.trans hcase)
    rw [Sha256.compressBlocks_eq hw _ (forall_mem_singleton.mpr buffer.2)]
    refine ⟨_, rfl, ⟨?_, ?_, ?_⟩, rfl, fun _ => rfl⟩
    · rw [blocks_append, hblocks, foldl_append, ← h.state, hbuffer]
    · rw [rest_append, hrest, length_nil]
    · rw [rest_append, hrest, take_zero]
  · dsimp only at hcase
    obtain ⟨hblocks, hrest⟩ := blocks_of_lt (show (rest message ++ input).length < 64 by omega)
    refine ⟨_, rfl, ⟨?_, ?_, ?_⟩, rfl, fun hfull => absurd hfull hcase⟩
    · rw [blocks_append, hblocks, append_nil]
      exact h.state
    · rw [rest_append, hrest, hlength]
    · rw [rest_append, hrest]
      exact hbuffer

theorem feed (input : List UInt8) :
    ∃ later, hasher.feed hw input = some later ∧ Holds later (message ++ input) ∧ later.messageLen = hasher.messageLen := by
  have hlt := h.lt
  rw [Sha256.feed]
  by_cases hempty : hasher.bufferLen = 0
  · rw [if_pos hempty]
    exact h.absorb hw hempty input
  · rw [if_neg hempty, if_neg (by omega)]
    obtain ⟨wanted, hwanted⟩ : ∃ wanted, wanted = min (64 - hasher.bufferLen) input.length := ⟨_, rfl⟩
    have htaken : (input.take wanted).length = wanted := by
      rw [length_take]
      omega
    obtain ⟨buffer, hwrite, hbytes⟩ := write_eq_some hasher.buffer hasher.bufferLen (input.take wanted) (by omega)
    have hbuffer : buffer.1.take (hasher.bufferLen + (input.take wanted).length) = rest message ++ input.take wanted := by
      rw [hbytes, h.buffer, take_left']
      rw [length_append, h.bufferLen]
    obtain ⟨later, hflush, hlater, hmessage, hfull⟩ := h.flush hw (input.take wanted) (by omega) hbuffer
    rw [htaken] at hflush hfull
    rw [← hwanted]
    simp only [hwrite, hflush, bind_eq_bind, bind_some]
    by_cases hdone : input.drop wanted = []
    · rw [if_pos hdone]
      refine ⟨later, rfl, ?_, hmessage⟩
      rwa [← take_append_drop wanted input, hdone, append_nil]
    · rw [if_neg hdone]
      have hmore : (input.drop wanted).length ≠ 0 := fun hzero => hdone (eq_nil_of_length_eq_zero hzero)
      rw [length_drop] at hmore
      obtain ⟨last, habsorb, hlast, hcount⟩ := hlater.absorb hw (hfull (by omega)) (input.drop wanted)
      rw [append_assoc, take_append_drop] at hlast
      exact ⟨last, habsorb, hlast, hcount.trans hmessage⟩

theorem update (input : List UInt8) : ∃ later, hasher.update hw input = some later ∧ Holds later (message ++ input) ∧
      later.messageLen = min (hasher.messageLen + input.length) (2 ^ 64 - 1) :=
  have hcounted : Holds { hasher with messageLen := min (hasher.messageLen + input.length) (2 ^ 64 - 1) } message :=
    ⟨h.state, h.bufferLen, h.buffer⟩
  hcounted.feed hw input

/-- The end mark, with the zeros behind it when the length does not fit into the block. -/
theorem spill {buffer : Block} (hbuffer : buffer.1.take (hasher.bufferLen + 1) = rest message ++ [0x80]) :
    ∃ later count, Sha256.spill hw { hasher with buffer, bufferLen := hasher.bufferLen + 1 } = some later ∧
      Holds later (message ++ 0x80 :: List.replicate count 0) ∧ later.messageLen = hasher.messageLen ∧ later.bufferLen ≤ 56 ∧
      count + (56 - later.bufferLen) = Fips180.zeros message.length := by
  have hlt := h.lt
  have hlength := h.bufferLen.trans (length_rest message)
  rw [Sha256.spill, Fips180.zeros, ← hlength]
  by_cases hbeyond : 56 < hasher.bufferLen + 1
  · rw [if_pos hbeyond]
    obtain ⟨cleared, hclear, hbytes⟩ := clear_eq_some buffer (show hasher.bufferLen + 1 ≤ 64 from hlt) (Nat.le_refl _)
    rw [hbuffer, drop_eq_nil_of_le (Nat.le_of_eq buffer.2), append_nil, append_assoc, singleton_append] at hbytes
    have hfull : hasher.bufferLen + ((0x80 : UInt8) :: List.replicate (64 - (hasher.bufferLen + 1)) 0).length = 64 := by
      rw [length_cons, length_replicate]
      omega
    obtain ⟨later, hflush, hlater, hmessage, hzero⟩ := h.flush hw _ (Nat.le_of_eq hfull)
      (show cleared.1.take _ = _ by rw [hfull, take_of_length_le (Nat.le_of_eq cleared.2), hbytes])
    have hlast := hzero hfull
    rw [hfull, Sha256.flush] at hflush
    refine ⟨later, _, ?_, hlater, hmessage, by omega, by omega⟩
    rw [← hflush, hclear, bind_eq_bind, bind_some, Sha256.compressBlocks_eq hw _ (forall_mem_singleton.mpr cleared.2),
      Sha256.compressBlocks_eq hw _ (forall_mem_singleton.mpr cleared.2)]
    rfl
  · rw [if_neg hbeyond]
    obtain ⟨later, hflush, hlater, hmessage, -⟩ := h.flush hw [0x80] (show hasher.bufferLen + 1 ≤ 64 from hlt) hbuffer
    have hopen : hasher.bufferLen + 1 ≠ 64 := by omega
    obtain rfl := Option.some.inj ((if_neg hopen).symm.trans hflush)
    refine ⟨_, 0, rfl, hlater, rfl, Nat.le_of_not_lt hbeyond, ?_⟩
    show 0 + (56 - (hasher.bufferLen + 1)) = (119 - hasher.bufferLen) % 64
    omega

theorem finalize (hmessage : hasher.messageLen = message.length) (hbound : message.length < 2 ^ 61) :
    hasher.finalize hw = some (sha256 message) := by
  have hlt := h.lt
  have hbits : min (8 * hasher.messageLen) (2 ^ 64 - 1) = 8 * message.length := by omega
  obtain ⟨marked, hwrite, hbytes⟩ := write_eq_some hasher.buffer hasher.bufferLen [0x80] hlt
  have hmarked : marked.1.take (hasher.bufferLen + 1) = rest message ++ [0x80] := by
    rw [hbytes, h.buffer, take_left']
    rw [length_append, h.bufferLen, length_singleton]
  obtain ⟨later, count, hspill, hlater, -, hroom, hzeros⟩ := h.spill hw hmarked
  obtain ⟨cleared, hclear, hcleared⟩ := clear_eq_some later.buffer hroom (by decide)
  obtain ⟨last, hlast, hblock⟩ := write_eq_some cleared 56 (beBytes 8 (8 * message.length)) (Nat.le_refl 64)
  -- the last block is what was left, the zeros and the length
  have hall : last.1 = rest (message ++ 0x80 :: List.replicate count 0) ++
      (List.replicate (56 - later.bufferLen) 0 ++ beBytes 8 (8 * message.length)) := by
    have hfront : (rest (message ++ 0x80 :: List.replicate count 0) ++ List.replicate (56 - later.bufferLen) 0).length = 56 := by
      rw [length_append, ← hlater.bufferLen, length_replicate]
      omega
    have hend : cleared.1.drop (56 + (beBytes 8 (8 * message.length)).length) = [] :=
      drop_eq_nil_of_le (Nat.le_of_eq cleared.2)
    rw [hblock, hend, append_nil, hcleared, hlater.buffer, take_left' hfront, append_assoc]
  have hpad : pad message = message ++ 0x80 :: List.replicate count 0 ++
      (List.replicate (56 - later.bufferLen) 0 ++ beBytes 8 (8 * message.length)) := by
    rw [pad, ← hzeros, ← replicate_append_replicate]
    simp only [append_assoc, cons_append]
  have hblocks := (blocks_of_length last.2).1
  rw [Sha256.finalize, hbits, hwrite]
  simp only [hspill, hclear, hlast, bind_eq_bind, bind_some, Sha256.compressBlocks_eq hw _ (forall_mem_singleton.mpr last.2)]
  rw [sha256, hpad, blocks_append, ← hall, hblocks, foldl_append, ← hlater.state]

end

end Holds

theorem holds_new : Holds Sha256.new [] := ⟨tables_eq.1, rfl, rfl⟩

/-- By induction on the chunks: the length is counted exactly while it stays below its bound. -/
theorem Holds.updateAll (hw : Hardware) (chunks : List (List UInt8)) {hasher : Sha256} {message : List UInt8}
    (h : Holds hasher message) (hmessage : hasher.messageLen = message.length) (hbound : (message ++ chunks.flatten).length < 2 ^ 61) :
    ∃ later, chunks.foldlM (Sha256.update hw) hasher = some later ∧ Holds later (message ++ chunks.flatten) ∧
      later.messageLen = (message ++ chunks.flatten).length := by
  induction chunks generalizing hasher message with
  | nil =>
    rw [flatten_nil, append_nil]
    exact ⟨hasher, rfl, h, hmessage⟩
  | cons chunk chunks ih =>
    rw [flatten_cons, ← append_assoc] at hbound ⊢
    obtain ⟨later, hupdate, hlater, hcount⟩ := h.update hw chunk
    rw [foldlM_cons, hupdate]
    refine ih hlater (hcount.trans ?_) hbound
    rw [length_append, length_append] at hbound
    rw [length_append]
    omega

/-- The reader takes what the hasher is fed chunk by chunk. -/
theorem readAll_eq (hw : Hardware) {ε : Type} {chunks : List (List UInt8)}
    (hchunks : ∀ chunk ∈ chunks, chunk ≠ [] ∧ chunk.length ≤ 1024 * 1024) (hasher : Sha256) :
    readAll hw hasher (chunks.map (.ok : List UInt8 → Except ε (List UInt8))) =
      (chunks.foldlM (Sha256.update hw) hasher).map .ok := by
  induction chunks generalizing hasher with
  | nil => rfl
  | cons chunk chunks ih =>
    obtain ⟨⟨hsome, hsize⟩, hchunks⟩ := forall_mem_cons.mp hchunks
    rw [map_cons, readAll, if_neg hsome, if_neg (Nat.not_lt.mpr hsize), foldlM_cons, bind_eq_bind,
      bind_eq_bind, Option.map_bind]
    exact congrArg _ (funext fun later => ih hchunks later)

/-- However a message is cut, its digest is that of FIPS 180-4, and no access is out of range. -/
theorem sha256_exact (hw : Hardware) (chunks : List (List UInt8)) (hbound : chunks.flatten.length < 2 ^ 61) :
    (chunks.foldlM (Sha256.update hw) Sha256.new >>= Sha256.finalize hw) = some (sha256 chunks.flatten) ∧
      sha256Bytes hw chunks.flatten = some (hex (sha256 chunks.flatten)) ∧
      ∀ ε : Type, (∀ chunk ∈ chunks, chunk ≠ [] ∧ chunk.length ≤ 1024 * 1024) →
        sha256Reader hw (chunks.map (.ok : List UInt8 → Except ε (List UInt8))) = (sha256Bytes hw chunks.flatten).map .ok := by
  have hfed (chunks : List (List UInt8)) (hbound : chunks.flatten.length < 2 ^ 61) : ∃ later,
      chunks.foldlM (Sha256.update hw) Sha256.new = some later ∧ later.finalize hw = some (sha256 chunks.flatten) := by
    obtain ⟨later, hupdate, hlater, hmessage⟩ := holds_new.updateAll hw chunks rfl hbound
    exact ⟨later, hupdate, hlater.finalize hw hmessage hbound⟩
  have hbytes : sha256Bytes hw chunks.flatten = some (hex (sha256 chunks.flatten)) := by
    obtain ⟨later, hupdate, hfinal⟩ := hfed [chunks.flatten] (by simpa using hbound)
    simp only [foldlM_cons, foldlM_nil, bind_pure] at hupdate
    rw [flatten_singleton] at hfinal
    rw [sha256Bytes, hupdate, bind_eq_bind, bind_some, hfinal]
    rfl
  obtain ⟨later, hupdate, hfinal⟩ := hfed chunks hbound
  refine ⟨?_, hbytes, ?_⟩
  · rw [hupdate, bind_eq_bind, bind_some, hfinal]
  · intro ε hchunks
    rw [sha256Reader, readAll_eq hw hchunks, hupdate, hbytes]
    simp only [map_some, bind_eq_bind, bind_some, hfinal]
    rfl

/-- A processor without the instructions. -/
def software : Hardware where
  tryCompress _ _ := none
  eq_software _ _ _ _ h := by cases h

theorem sha256_exact_abc : sha256Bytes software [97, 98, 99] = some (hex (sha256 [97, 98, 99])) :=
  (sha256_exact software [[97], [], [98, 99]] (by decide)).2.1

end Kinewright.Hash
