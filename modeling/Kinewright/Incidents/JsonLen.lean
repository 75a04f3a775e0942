import Mathlib.Algebra.BigOperators.Group.List.Basic
import Mathlib.Algebra.Order.Ring.Nat
import Kinewright.Lib.SerdeJson

/-!
# The length of compact JSON

`compact_json_len` of `incident.rs`: a serializer that writes nothing and counts the bytes that the compact format would take.
-/

namespace Kinewright.Incidents

open SerdeJson List

/-! ## The counter -/

/-- `usize::saturating_add`, of a count that is within the range. -/
def saturated (n : ℕ) : ℕ := min n (2 ^ 64 - 1)

def jsonEscapedByteLen (byte : UInt8) : ℕ :=
  if byte.toNat ∈ [0x22, 0x5C, 0x08, 0x09, 0x0A, 0x0C, 0x0D] then 2 else if byte.toNat ≤ 0x1F then 6 else 1

/-- `json_escaped_len`, of the bytes of a text. -/
def escapedByteLen (text : List Char) : ℕ := ((utf8 text).map jsonEscapedByteLen).sum

/-- `JsonLenCounter::push`. -/
def push (bytes len : ℕ) : ℕ := saturated (len + bytes)

def unsignedLen (value : ℕ) : ℕ := if 10 ≤ value then unsignedLen (value / 10) + 1 else 1

def signedLen (value : ℤ) : ℕ := unsignedLen value.natAbs + if value < 0 then 1 else 0

def quotedLen (text : List Char) : ℕ := saturated (escapedByteLen text + 2)

mutual

/-- `JsonLenCounter`, as the serializer of a value. -/
def countValue : Value → ℕ → ℕ
  | .bool value, len => push ((if value then 0 else 1) + 4) len
  | .int value, len => push (signedLen value) len
  | .char value, len => push (quotedLen [value]) len
  | .str value, len => push (quotedLen value.toList) len
  | .none, len | .unit, len | .unitStruct _, len => push 4 len
  | .some value, len | .newtypeStruct _ value, len => countValue value len
  | .unitVariant variant, len => push (quotedLen variant.toList) len
  | .newtypeVariant variant value, len => push 1 (countValue value (push (saturated (quotedLen variant.toList + 2)) len))
  | .seq _ items, len => push 1 (countItems true items (push 1 len))
  | .tupleVariant variant items, len => push 2 (countItems true items (push (saturated (quotedLen variant.toList + 3)) len))
  | .map entries, len => push 1 (countEntries true entries (push 1 len))
  | .struct _ fields, len => push 1 (countFields true fields (push 1 len))
  | .structVariant variant fields, len => push 2 (countFields true fields (push (saturated (quotedLen variant.toList + 3)) len))

/-- `SeqLenCounter`, up to its end. -/
def countItems (first : Bool) : Values → ℕ → ℕ
  | .nil, len => len
  | .cons value rest, len => countItems false rest (countValue value (if first then len else push 1 len))

/-- `MapLenCounter` as the serializer of a map, up to its end. -/
def countEntries (first : Bool) : Entries → ℕ → ℕ
  | .nil, len => len
  | .cons key value rest, len =>
    let keyed := push (quotedLen key.toList) (if first then len else push 1 len)
    countEntries false rest (countValue value (push 1 keyed))
  | .skip _ rest, len => countEntries first rest len

/-- `MapLenCounter` as the serializer of a structure, up to its end. -/
def countFields (first : Bool) : Entries → ℕ → ℕ
  | .nil, len => len
  | .cons key value rest, len =>
    let keyed := push (saturated (quotedLen key.toList + 1)) (if first then len else push 1 len)
    countFields false rest (countValue value keyed)
  | .skip _ rest, len => countFields first rest len

end

def compactJsonLen (value : Value) : ℕ := countValue value 0

/-! ## Bytes of texts -/

theorem length_utf8_append (text text' : List Char) : (utf8 (text ++ text')).length = (utf8 text).length + (utf8 text').length := by
  rw [utf8, flatMap_append, length_append, ← utf8, ← utf8]

theorem length_utf8_cons (c : Char) (text : List Char) : (utf8 (c :: text)).length = c.utf8Size + (utf8 text).length := by
  rw [utf8, flatMap_cons, length_append, String.length_utf8EncodeChar, ← utf8]

/-- The bytes of a character are counted as those of its escape. -/
theorem sum_utf8EncodeChar (c : Char) : ((String.utf8EncodeChar c).map jsonEscapedByteLen).sum = (utf8 (escape c)).length := by
  rcases Nat.lt_or_ge c.toNat 0x80 with hascii | hbeyond
  · have hall : ∀ n < 0x80, ((String.utf8EncodeChar (Char.ofNat n)).map jsonEscapedByteLen).sum =
        (utf8 (escape (Char.ofNat n))).length := by decide +kernel
    rw [← Char.ofNat_toNat c]
    exact hall c.toNat hascii
  · have hone : ∀ byte ∈ String.utf8EncodeChar c, jsonEscapedByteLen byte = 1 := by
      intro byte hbyte
      have hle := le_of_mem_utf8EncodeChar hbeyond hbyte
      rw [jsonEscapedByteLen, if_neg, if_neg (by omega)]
      simp only [mem_cons, not_mem_nil, or_false]
      omega
    have hescape : escape c = [c] := by
      simp only [escape]
      iterate 8 rw [if_neg (by omega)]
    rw [hescape, map_congr_left hone, map_const', sum_replicate_nat, Nat.mul_one, utf8, flatMap_singleton]

theorem escapedByteLen_eq (text : List Char) : escapedByteLen text = (utf8 (text.flatMap escape)).length := by
  induction text with
  | nil => rfl
  | cons c text ih =>
    rw [escapedByteLen, utf8, flatMap_cons, map_append, sum_append, sum_utf8EncodeChar, ← utf8, ← escapedByteLen, ih,
      flatMap_cons, length_utf8_append]

theorem length_quoted (text : List Char) : (utf8 (quoted text)).length = escapedByteLen text + 2 := by
  rw [quoted, length_utf8_cons, length_utf8_append, escapedByteLen_eq]
  exact Nat.add_comm _ _

/-- By induction on the number, whose digits but the last are those of a tenth of it. -/
theorem length_toDigits (n : ℕ) : (utf8 (Nat.toDigits 10 n)).length = unsignedLen n := by
  induction n using Nat.strongRecOn with
  | _ n ih =>
    rw [Nat.toDigits_eq_if (by decide), unsignedLen]
    have hdigit : ∀ d < 10, (utf8 [Nat.digitChar d]).length = 1 := by decide
    by_cases hsmall : n < 10
    · rw [if_pos hsmall, if_neg (by omega), hdigit n hsmall]
    · rw [if_neg hsmall, if_pos (by omega), length_utf8_append, ih (n / 10) (by omega), hdigit _ (Nat.mod_lt n (by decide))]

theorem length_decimal (n : ℤ) : (utf8 (decimal n)).length = signedLen n := by
  rw [decimal, length_utf8_append, length_toDigits, signedLen, Nat.add_comm]
  split <;> rfl

/-! ## The count is the length -/

theorem push_saturated (bytes n : ℕ) : push bytes (saturated n) = saturated (n + bytes) := by
  rw [push, saturated, saturated, saturated]
  omega

theorem push_saturated_saturated (bytes n : ℕ) : push (saturated bytes) (saturated n) = saturated (n + bytes) := by
  rw [push, saturated, saturated, saturated, saturated]
  omega

theorem saturated_add (n extra : ℕ) : saturated (saturated n + extra) = saturated (n + extra) := by
  rw [saturated, saturated, saturated]
  omega

theorem length_enclosed {opening closing : Char} (hopening : opening.utf8Size = 1) (hclosing : closing.utf8Size = 1) (text : List Char) :
    (utf8 (opening :: (text ++ [closing]))).length = 1 + (utf8 text).length + 1 := by
  rw [length_utf8_cons, length_utf8_append, length_utf8_cons, hopening, hclosing]
  rfl

theorem length_tagged (variant : String) (text : List Char) :
    (utf8 (tagged variant text)).length = escapedByteLen variant.toList + 4 + (utf8 text).length + 1 := by
  have hcolon : (':' : Char).utf8Size = 1 := rfl
  have hbrace : (Char.ofNat 0x7B).utf8Size = 1 := rfl
  rw [tagged, length_utf8_cons, length_utf8_append, length_quoted, length_enclosed hcolon rfl]
  omega

/-- A separator is counted before each but the first. -/
theorem push_separator (first : Bool) (n : ℕ) :
    (if first then saturated n else push 1 (saturated n)) = saturated (n + (utf8 (if first then [] else [','])).length) := by
  cases first with
  | true => rfl
  | false => exact push_saturated 1 n

mutual

theorem countValue_eq : ∀ (value : Value) (n : ℕ),
    countValue value (saturated n) = saturated (n + (utf8 value.text).length)
  | .bool value, n => by
    cases value with
    | true => exact push_saturated 4 n
    | false => exact push_saturated 5 n
  | .int value, n => by rw [countValue, push_saturated, Value.text, length_decimal]
  | .char value, n => by rw [countValue, quotedLen, push_saturated_saturated, Value.text, length_quoted]
  | .str value, n => by rw [countValue, quotedLen, push_saturated_saturated, Value.text, length_quoted]
  | .none, n => push_saturated 4 n
  | .unit, n => push_saturated 4 n
  | .unitStruct _, n => push_saturated 4 n
  | .some value, n => by rw [countValue, countValue_eq value, Value.text]
  | .newtypeStruct _ value, n => by rw [countValue, countValue_eq value, Value.text]
  | .unitVariant variant, n => by rw [countValue, quotedLen, push_saturated_saturated, Value.text, length_quoted]
  | .newtypeVariant variant value, n => by
    rw [countValue, quotedLen, saturated_add, push_saturated_saturated, countValue_eq value, push_saturated, Value.text, length_tagged]
    congr 1
    omega
  | .seq _ items, n => by
    rw [countValue, push_saturated, countItems_eq, push_saturated, Value.text, length_enclosed rfl rfl]
    congr 1
    omega
  | .tupleVariant variant items, n => by
    rw [countValue, quotedLen, saturated_add, push_saturated_saturated, countItems_eq, push_saturated, Value.text, length_tagged,
      length_enclosed rfl rfl]
    congr 1
    omega
  | .map entries, n => by
    rw [countValue, push_saturated, countEntries_eq, push_saturated, Value.text, length_enclosed rfl rfl]
    congr 1
    omega
  | .struct _ fields, n => by
    rw [countValue, push_saturated, countFields_eq, push_saturated, Value.text, length_enclosed rfl rfl]
    congr 1
    omega
  | .structVariant variant fields, n => by
    rw [countValue, quotedLen, saturated_add, push_saturated_saturated, countFields_eq, push_saturated, Value.text, length_tagged,
      length_enclosed rfl rfl]
    congr 1
    omega

theorem countItems_eq : ∀ (first : Bool) (items : Values) (n : ℕ),
    countItems first items (saturated n) = saturated (n + (utf8 (items.text first)).length)
  | _, .nil, _ => rfl
  | first, .cons value rest, n => by
    rw [countItems, push_separator, countValue_eq value, countItems_eq false rest, Values.text, length_utf8_append, length_utf8_append]
    congr 1
    omega

theorem countEntries_eq : ∀ (first : Bool) (entries : Entries) (n : ℕ),
    countEntries first entries (saturated n) = saturated (n + (utf8 (entries.text first)).length)
  | _, .nil, _ => rfl
  | first, .cons key value rest, n => by
    rw [countEntries, push_separator, quotedLen, push_saturated_saturated, push_saturated, countValue_eq value, countEntries_eq false rest, Entries.text, length_utf8_append,
      length_utf8_append, length_utf8_append, length_quoted, length_utf8_cons, show (':' : Char).utf8Size = 1 from rfl]
    congr 1
    omega
  | first, .skip _ rest, n => countEntries_eq first rest n

theorem countFields_eq : ∀ (first : Bool) (fields : Entries) (n : ℕ),
    countFields first fields (saturated n) = saturated (n + (utf8 (fields.text first)).length)
  | _, .nil, _ => rfl
  | first, .cons key value rest, n => by
    rw [countFields, push_separator, quotedLen, saturated_add, push_saturated_saturated, countValue_eq value, countFields_eq false rest, Entries.text, length_utf8_append,
      length_utf8_append, length_utf8_append, length_quoted, length_utf8_cons, show (':' : Char).utf8Size = 1 from rfl]
    congr 1
    omega
  | first, .skip _ rest, n => countFields_eq first rest n

end

/-- The counter agrees with the encoder on every value, as far as a length can be told. -/
theorem compactJsonLen_eq (value : Value) : compactJsonLen value = saturated value.bytes.length ∧
    (value.bytes.length < 2 ^ 64 → compactJsonLen value = value.bytes.length) := by
  have heq : compactJsonLen value = saturated value.bytes.length := by
    have hcount := countValue_eq value 0
    rwa [Nat.zero_add] at hcount
  refine ⟨heq, fun hlength => ?_⟩
  rw [heq, saturated]
  omega

/-- A structure variant with a field that is left out, and a string with an escape in it. -/
def moved : Value :=
  .structVariant "Move" (.cons "to" (.seq .tuple (.cons (.int (-12)) (.cons (.str "a\n") .nil))) (.skip "by" .nil))

theorem compactJsonLen_eq_moved : moved.bytes.length < 2 ^ 64 ∧ compactJsonLen moved = moved.bytes.length := by
  have hlength : moved.bytes.length < 2 ^ 64 := by decide +kernel
  exact ⟨hlength, (compactJsonLen_eq moved).2 hlength⟩

end Kinewright.Incidents
