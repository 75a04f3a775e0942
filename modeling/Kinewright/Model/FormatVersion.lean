import Mathlib.Algebra.Order.Ring.Nat
import Kinewright.Lib.JsonText

/-!
# The format version of a project file

`model.rs`: the scan over the bytes of a project file for the top-level `format_version`, without a parser. A position in the
bytes is what is left of them there.
-/

namespace Kinewright.Model.FormatVersion

open JsonText List UInt8 List.cons
open Option hiding all_eq_true mem_map

/-! ## The scan -/

/-- `u8::is_ascii_whitespace`. -/
def isAsciiWhitespace (b : UInt8) : Bool := b = 0x20 || b = 0x09 || b = 0x0A || b = 0x0C || b = 0x0D

def isAsciiDigit (b : UInt8) : Bool := 0x30 ≤ b && b ≤ 0x39

/-- `std::str::from_utf8`, as characters. -/
def fromUtf8 (bytes : List UInt8) : Option (List Char) := (String.fromUTF8? bytes.toByteArray).map String.toList

/-- `skip_ascii_whitespace`. -/
def skipAsciiWhitespace (bytes : List UInt8) : List UInt8 := bytes.dropWhile isAsciiWhitespace

/-- `u32::from_str_radix` of a text of four characters, in base 16: a sign may stand before the digits. -/
def fromStrRadix16 (text : List Char) : Option ℕ :=
  let digits := if text.head? = some '+' then text.tail else text
  digits.foldl (fun n c => n.bind fun n => (hexValue c).map fun value => n * 16 + value) (some 0)

/-- `char::from_u32`, or the replacement character. -/
def fromU32 (unit : ℕ) : Char := if unit.isValidChar then Char.ofNat unit else Char.ofNat 0xFFFD

/-- The escapes of two bytes. -/
def unescaped (b : UInt8) : Option Char :=
  if b = 0x22 then some (Char.ofNat 0x22)
  else if b = 0x5C then some (Char.ofNat 0x5C)
  else if b = 0x2F then some '/'
  else if b = 0x62 then some (Char.ofNat 0x08)
  else if b = 0x66 then some (Char.ofNat 0x0C)
  else if b = 0x6E then some (Char.ofNat 0x0A)
  else if b = 0x72 then some (Char.ofNat 0x0D)
  else if b = 0x74 then some (Char.ofNat 0x09)
  else none

/-- The loop of `json_string_contents`. -/
def contentsFrom (out : List Char) (bytes : List UInt8) : Option (List Char × List UInt8) :=
  match bytes with
  | [] => none
  | b :: rest =>
    if b = 0x22 then some (out, rest)
    else if b = 0x5C then
      match rest with
      | [] => none
      | escaped :: rest =>
        if escaped = 0x75 then
          if 4 ≤ rest.length then
            (fromUtf8 (rest.take 4)).bind fun hex => (fromStrRadix16 hex).bind fun unit =>
              contentsFrom (out ++ [fromU32 unit]) (rest.drop 4)
          else none
        else (unescaped escaped).bind fun c => contentsFrom (out ++ [c]) rest
    else if b < 0x20 then none
    else
      (fromUtf8 (b :: rest)).bind fun text => text.head?.bind fun character =>
        contentsFrom (out ++ [character]) (rest.drop (character.utf8Size - 1))
termination_by bytes.length
decreasing_by all_goals (simp only [length_cons, length_drop]; omega)

/-- `json_string_contents`. -/
def jsonStringContents (bytes : List UInt8) : Option (List Char × List UInt8) :=
  match bytes with
  | [] => none
  | b :: rest => if b = 0x22 then contentsFrom [] rest else none

/-- The loop of `skip_json_string`. -/
def skipStringFrom : List UInt8 → Option (List UInt8)
  | [] => none
  | b :: rest => if b = 0x22 then some rest else if b = 0x5C then match rest with
      | [] => none
      | _ :: rest => skipStringFrom rest
    else skipStringFrom rest

/-- `skip_json_string`. -/
def skipJsonString (bytes : List UInt8) : Option (List UInt8) :=
  match bytes with
  | [] => none
  | b :: rest => if b = 0x22 then skipStringFrom rest else none

variable {bytes rest : List UInt8}

theorem length_skipStringFrom (h : skipStringFrom bytes = some rest) : rest.length < bytes.length := by
  fun_induction skipStringFrom bytes with
  | case1 => cases h
  | case2 bytes =>
    obtain rfl := Option.some.inj h
    simp
  | case3 => cases h
  | case4 c bytes hquote ih | case5 b bytes hquote hbackslash ih =>
    have hlt := ih h
    simp only [length_cons]
    omega

theorem length_skipJsonString (h : skipJsonString bytes = some rest) : rest.length < bytes.length := by
  unfold skipJsonString at h
  split at h
  · cases h
  · split at h
    · have hlt := length_skipStringFrom h
      simp only [length_cons]
      omega
    · cases h

/-- The loop of `skip_json_value`. -/
def skipValueFrom (depth : ℕ) (bytes : List UInt8) : Option (List UInt8) :=
  match bytes with
  | [] => none
  | b :: rest =>
    if b = 0x22 then
      match h : skipJsonString (b :: rest) with
      | none => none
      | some after =>
        have := length_skipJsonString h
        skipValueFrom depth after
    else if b = 0x7B ∨ b = 0x5B then skipValueFrom (depth + 1) rest
    else if b = 0x2C ∧ depth = 0 then some (b :: rest)
    else if b = 0x7D ∨ b = 0x5D then
      if depth = 0 then some (b :: rest) else skipValueFrom (depth - 1) rest
    else skipValueFrom depth rest
termination_by bytes.length
decreasing_by all_goals simp_all

/-- `skip_json_value`. -/
def skipJsonValue (bytes : List UInt8) : Option (List UInt8) :=
  if bytes.head? = some 0x22 then skipJsonString bytes else skipValueFrom 0 bytes

variable {key : List Char}

theorem length_contentsFrom {out : List Char} (h : contentsFrom out bytes = some (key, rest)) :
    rest.length < bytes.length := by
  fun_induction contentsFrom out bytes with
  | case1 => cases h
  | case2 out bytes =>
    obtain ⟨-, rfl⟩ := Prod.mk.inj (Option.some.inj h)
    simp
  | case3 => cases h
  | case4 out bytes hquote hlong ih =>
    obtain ⟨hex, -, h⟩ := bind_eq_some_iff.mp h
    obtain ⟨unit, -, h⟩ := bind_eq_some_iff.mp h
    have hlt := ih unit h
    simp only [length_cons, length_drop] at hlt ⊢
    omega
  | case5 => cases h
  | case6 out bytes hquote escaped hunicode ih =>
    obtain ⟨c, -, h⟩ := bind_eq_some_iff.mp h
    have hlt := ih c h
    simp only [length_cons]
    omega
  | case7 => cases h
  | case8 out b bytes hquote hbackslash hcontrol ih =>
    obtain ⟨text, -, h⟩ := bind_eq_some_iff.mp h
    obtain ⟨c, -, h⟩ := bind_eq_some_iff.mp h
    have hlt := ih c h
    simp only [length_cons, length_drop] at hlt ⊢
    omega

theorem length_jsonStringContents (h : jsonStringContents bytes = some (key, rest)) : rest.length < bytes.length := by
  unfold jsonStringContents at h
  split at h
  · cases h
  · split at h
    · have hlt := length_contentsFrom h
      simp only [length_cons]
      omega
    · cases h

variable {depth : ℕ}

theorem length_skipValueFrom (h : skipValueFrom depth bytes = some rest) : rest.length ≤ bytes.length := by
  fun_induction skipValueFrom depth bytes with
  | case1 => cases h
  | case2 => cases h
  | case3 depth bytes after hskip hlt ih =>
    have hle := ih h
    omega
  | case4 _ _ _ _ _ ih | case7 _ _ _ _ _ _ _ _ ih | case8 _ _ _ _ _ _ _ ih =>
    have hle := ih h
    simp only [length_cons]
    omega
  | case5 | case6 =>
    obtain rfl := Option.some.inj h
    exact Nat.le_refl _

theorem length_skipJsonValue (h : skipJsonValue bytes = some rest) : rest.length ≤ bytes.length := by
  unfold skipJsonValue at h
  split at h
  · exact Nat.le_of_lt (length_skipJsonString h)
  · exact length_skipValueFrom h

theorem length_skipAsciiWhitespace (bytes : List UInt8) : (skipAsciiWhitespace bytes).length ≤ bytes.length :=
  (dropWhile_suffix _).length_le

/-- The loop over the commas before a member. -/
def skipCommas (bytes : List UInt8) : List UInt8 :=
  match bytes with
  | [] => []
  | b :: rest =>
    if b = 0x2C then
      have := length_skipAsciiWhitespace rest
      skipCommas (skipAsciiWhitespace rest)
    else b :: rest
termination_by bytes.length
decreasing_by simp_wf; omega

theorem length_skipCommas (bytes : List UInt8) : (skipCommas bytes).length ≤ bytes.length := by
  fun_induction skipCommas bytes with
  | case1 | case3 => exact Nat.le_refl _
  | case2 bytes hle ih =>
    simp only [length_cons]
    omega

variable {b : UInt8}

/-- A member is shorter than what is left where it begins. -/
theorem length_memberValue {next value : List UInt8} {c : UInt8} (hkey : skipCommas (skipAsciiWhitespace bytes) = b :: rest)
    (hcontents : jsonStringContents (b :: rest) = some (key, next)) (hcolon : skipAsciiWhitespace next = c :: value) :
    (skipAsciiWhitespace value).length < bytes.length := by
  have hbytes := length_skipAsciiWhitespace bytes
  have hcommas := length_skipCommas (skipAsciiWhitespace bytes)
  have hlt := length_jsonStringContents hcontents
  have hnext := length_skipAsciiWhitespace next
  have hvalue := length_skipAsciiWhitespace value
  rw [hkey] at hcommas
  rw [hcolon, length_cons] at hnext
  omega

/-- `str::parse::<u32>` of digits, or the greatest version. -/
def parseVersion (digits : List UInt8) : ℕ :=
  let n := digits.foldl (fun n b => n * 10 + (b.toNat - 0x30)) 0
  if n < 2 ^ 32 then n else 2 ^ 32 - 1

/-- The key. -/
def formatVersion : List Char := "format_version".toList

/-- The loop of `top_level_format_version`, with what was found so far. -/
def topLevelFrom (found : Option ℕ) (bytes : List UInt8) : Option ℕ :=
  match _hkey : skipCommas (skipAsciiWhitespace bytes) with
  | [] => none
  | b :: rest =>
    if b = 0x22 then
      match _hcontents : jsonStringContents (b :: rest) with
      | none => none
      | some (key, next) =>
        match _hcolon : skipAsciiWhitespace next with
        | [] => none
        | c :: rest =>
          if c = 0x3A then
            let value := skipAsciiWhitespace rest
            if key = formatVersion then
              let digits := value.takeWhile isAsciiDigit
              if digits = [] then none
              else topLevelFrom (some (parseVersion digits)) (value.dropWhile isAsciiDigit)
            else
              match _hvalue : skipJsonValue value with
              | none => none
              | some after => topLevelFrom found after
          else none
    else found
termination_by bytes.length
decreasing_by
  · exact Nat.lt_of_le_of_lt (dropWhile_suffix _).length_le (length_memberValue _hkey _hcontents _hcolon)
  · exact Nat.lt_of_le_of_lt (length_skipJsonValue _hvalue) (length_memberValue _hkey _hcontents _hcolon)

/-- `top_level_format_version`. -/
def topLevelFormatVersion (bytes : List UInt8) : Option ℕ :=
  (fromUtf8 bytes).bind fun _ =>
    match skipAsciiWhitespace bytes with
    | [] => none
    | b :: rest => if b = 0x7B then topLevelFrom none rest else none

/-- `project_format_version`. -/
def projectFormatVersion (bytes : List UInt8) : ℕ := (topLevelFormatVersion bytes).getD 1

/-! ## Characters and their bytes -/

/-- The bytes of a text in UTF-8. -/
def encode (text : List Char) : List UInt8 := text.flatMap String.utf8EncodeChar

theorem encode_append (text rest : List Char) : encode (text ++ rest) = encode text ++ encode rest := flatMap_append

theorem encode_cons (c : Char) (rest : List Char) : encode (c :: rest) = String.utf8EncodeChar c ++ encode rest :=
  flatMap_cons

theorem encode_singleton (c : Char) : encode [c] = String.utf8EncodeChar c := flatMap_singleton _ _

variable {c : Char}

theorem encodeChar_ascii (h : c.toNat < 0x80) : String.utf8EncodeChar c = [UInt8.ofNat c.toNat] := by
  have hle : c.val.toNat ≤ 0x7f := Nat.le_of_lt_succ h
  exact if_pos hle

/-- A byte of a character is the character itself, or no byte of ASCII. -/
theorem mem_encodeChar (hb : b ∈ String.utf8EncodeChar c) :
    b.toNat = c.toNat ∧ c.toNat < 0x80 ∨ 0x80 ≤ b.toNat ∧ 0x80 ≤ c.toNat := by
  have hc : c.toNat = c.val.toNat := rfl
  unfold String.utf8EncodeChar at hb
  dsimp only at hb
  split at hb
  · obtain rfl := mem_singleton.mp hb
    left
    rw [toNat_ofNat']
    omega
  · right
    refine ⟨?_, by omega⟩
    split at hb
    · simp only [mem_cons, not_mem_nil, or_false] at hb
      rcases hb with rfl | rfl <;> rw [toNat_ofNat'] <;> omega
    · split at hb
      · simp only [mem_cons, not_mem_nil, or_false] at hb
        rcases hb with rfl | rfl | rfl <;> rw [toNat_ofNat'] <;> omega
      · simp only [mem_cons, not_mem_nil, or_false] at hb
        rcases hb with rfl | rfl | rfl | rfl <;> rw [toNat_ofNat'] <;> omega

theorem fromUtf8_encode (text : List Char) : fromUtf8 (encode text) = some text := by
  have hbytes : (encode text).toByteArray = (String.ofList text).toByteArray := by
    rfl
  have hvalid := (String.ofList text).isValidUTF8
  rw [fromUtf8, hbytes, String.fromUTF8?, dif_pos hvalid]
  exact congrArg some String.toList_ofList

/-! ## White space -/

variable {space : List Char}

theorem skipAsciiWhitespace_space (h : Space space) (bytes : List UInt8) :
    skipAsciiWhitespace (encode space ++ bytes) = skipAsciiWhitespace bytes := by
  refine dropWhile_append_of_pos fun b hb => ?_
  obtain ⟨c, hc, hb⟩ := mem_flatMap.mp hb
  have hspace := h c hc
  simp only [isSpace, Bool.or_eq_true, decide_eq_true_eq] at hspace
  rcases mem_encodeChar hb with ⟨heq, -⟩ | ⟨-, hle⟩
  · simp only [isAsciiWhitespace, Bool.or_eq_true, decide_eq_true_eq, ← UInt8.toNat_inj]
    simp only [UInt8.reduceToNat]
    omega
  · omega

/-- A byte that is no white space ends it. -/
theorem skipAsciiWhitespace_cons (h : isAsciiWhitespace b = false) (bytes : List UInt8) :
    skipAsciiWhitespace (b :: bytes) = b :: bytes := dropWhile_cons_of_neg (by rw [h]; exact Bool.false_ne_true)

/-! ## Strings -/

@[simp] theorem skipStringFrom_quote (rest : List UInt8) : skipStringFrom (0x22 :: rest) = some rest := by
  rw [skipStringFrom.eq_def]
  exact if_pos rfl

@[simp] theorem skipStringFrom_escape (b : UInt8) (rest : List UInt8) :
    skipStringFrom (0x5C :: b :: rest) = skipStringFrom rest := by
  rfl

/-- The bytes of characters that are neither a quote nor a backslash. -/
theorem skipStringFrom_plain {text : List UInt8} (h : ∀ b ∈ text, b ≠ 0x22 ∧ b ≠ 0x5C) (bytes : List UInt8) :
    skipStringFrom (text ++ bytes) = skipStringFrom bytes := by
  induction text with
  | nil => rfl
  | cons b text ih =>
    rw [forall_mem_cons] at h
    rw [cons_append, skipStringFrom.eq_def]
    dsimp only
    rw [if_neg h.1.1, if_neg h.1.2, ih h.2]

/-- The bytes of a character are none of another character of ASCII. -/
theorem ne_of_mem_encodeChar (hb : b ∈ String.utf8EncodeChar c) {n : ℕ} (hn : n < 0x80) (hne : c.toNat ≠ n) :
    b ≠ UInt8.ofNat n := by
  rintro rfl
  have hmod : (UInt8.ofNat n).toNat = n := by
    rw [toNat_ofNat']
    omega
  rcases mem_encodeChar hb with ⟨heq, -⟩ | ⟨hle, -⟩ <;> omega

theorem toNat_ne {d : Char} (h : c ≠ d) : c.toNat ≠ d.toNat := fun heq => h (Char.toNat_inj.mp heq)

theorem toNat_letter (e : Escape) : e.letter.toNat < 0x80 ∧ unescaped (UInt8.ofNat e.letter.toNat) = some e.char ∧
    UInt8.ofNat e.letter.toNat ≠ 0x75 := by
  cases e <;> decide

/-- The bytes of hexadecimal digits. -/
theorem encode_hex (digits : List HexDigit) :
    encode (digits.map HexDigit.char) = digits.map fun d => UInt8.ofNat d.char.toNat := by
  induction digits with
  | nil => rfl
  | cons d digits ih =>
    have hd := (hexValue_eq_some d.value_eq).1
    rw [map_cons, encode_cons, encodeChar_ascii (by omega), ih]
    rfl

/-- The bytes of a string's piece are skipped. -/
theorem skipStringFrom_piece (piece : Piece) (bytes : List UInt8) :
    skipStringFrom (encode piece.text ++ bytes) = skipStringFrom bytes := by
  cases piece with
  | plain c habove hunquoted =>
    refine skipStringFrom_plain (fun b hb => ?_) bytes
    have hb : b ∈ String.utf8EncodeChar c := by simpa [Piece.text, encode] using hb
    exact ⟨ne_of_mem_encodeChar hb (by decide) (toNat_ne hunquoted.1),
      ne_of_mem_encodeChar hb (by decide) (toNat_ne hunquoted.2)⟩
  | escape e =>
    rw [Piece.text, encode_cons, encode_cons, encodeChar_ascii (toNat_letter e).1]
    exact skipStringFrom_escape _ _
  | unicode a b c d =>
    refine (skipStringFrom_escape _ _).trans (skipStringFrom_plain (fun byte hbyte => ?_) bytes)
    have hhex : byte ∈ encode ([a, b, c, d].map HexDigit.char) := hbyte
    obtain ⟨char, hchar, hbyte⟩ := mem_flatMap.mp hhex
    obtain ⟨digit, -, rfl⟩ := mem_map.mp hchar
    have hdigit := (hexValue_eq_some digit.value_eq).1
    exact ⟨ne_of_mem_encodeChar (n := 0x22) hbyte (by decide) (by omega),
      ne_of_mem_encodeChar (n := 0x5C) hbyte (by decide) (by omega)⟩

theorem skipStringFrom_pieces (pieces : List Piece) (bytes : List UInt8) :
    skipStringFrom (encode (pieces.flatMap Piece.text ++ [quote]) ++ bytes) = some bytes := by
  induction pieces with
  | nil => exact skipStringFrom_quote bytes
  | cons piece pieces ih =>
    rw [flatMap_cons, append_assoc, encode_append, append_assoc, skipStringFrom_piece, ih]

/-- A string is skipped to its end. -/
theorem skipJsonString_quoted (pieces : List Piece) (bytes : List UInt8) :
    skipJsonString (encode (quoted pieces) ++ bytes) = some bytes :=
  skipStringFrom_pieces pieces bytes

/-! ## Values -/

theorem skipValueFrom_string {after : List UInt8} (h : skipJsonString (0x22 :: bytes) = some after) :
    skipValueFrom depth (0x22 :: bytes) = skipValueFrom depth after := by
  rw [skipValueFrom]
  simp only [if_true]
  split
  · rename_i hnone
    rw [h] at hnone
    cases hnone
  · rename_i found hfound
    rw [h] at hfound
    rw [Option.some.inj hfound]

theorem skipValueFrom_quoted (depth : ℕ) (pieces : List Piece) (bytes : List UInt8) :
    skipValueFrom depth (encode (quoted pieces) ++ bytes) = skipValueFrom depth bytes :=
  skipValueFrom_string (skipJsonString_quoted pieces bytes)

/-- A byte that is neither a bracket nor a quote, and a comma only inside a container. -/
def Neutral (depth : ℕ) (b : UInt8) : Prop :=
  b ≠ 0x22 ∧ b ≠ 0x7B ∧ b ≠ 0x5B ∧ b ≠ 0x7D ∧ b ≠ 0x5D ∧ (b = 0x2C → 0 < depth)

theorem skipValueFrom_neutral {text : List UInt8} (h : ∀ b ∈ text, Neutral depth b) (bytes : List UInt8) :
    skipValueFrom depth (text ++ bytes) = skipValueFrom depth bytes := by
  induction text with
  | nil => rfl
  | cons b text ih =>
    rw [forall_mem_cons] at h
    obtain ⟨⟨hquote, hbrace, hbracket, hbrace', hbracket', hcomma⟩, hrest⟩ := h
    rw [cons_append, skipValueFrom, if_neg hquote, if_neg (by simp [hbrace, hbracket]),
      if_neg (fun hstop => by have := hcomma hstop.1; omega), if_neg (by simp [hbrace', hbracket']), ih hrest]

theorem skipValueFrom_opening (depth : ℕ) (keyed : Bool) (bytes : List UInt8) :
    skipValueFrom depth (encode [opening keyed] ++ bytes) = skipValueFrom (depth + 1) bytes := by
  have hopening : ∀ b : UInt8, b = 0x7B ∨ b = 0x5B → skipValueFrom depth (b :: bytes) = skipValueFrom (depth + 1) bytes := by
    intro b hb
    have hquote : b ≠ 0x22 := by rcases hb with rfl | rfl <;> decide
    rw [skipValueFrom, if_neg hquote, if_pos hb]
  cases keyed with
  | false => exact hopening 0x5B (.inr rfl)
  | true => exact hopening 0x7B (.inl rfl)

theorem skipValueFrom_closing (depth : ℕ) (keyed : Bool) (bytes : List UInt8) :
    skipValueFrom (depth + 1) (encode [closing keyed] ++ bytes) = skipValueFrom depth bytes := by
  have hclosing : ∀ b : UInt8, b = 0x7D ∨ b = 0x5D → skipValueFrom (depth + 1) (b :: bytes) = skipValueFrom depth bytes := by
    intro b hb
    have hother : b ≠ 0x22 ∧ ¬(b = 0x7B ∨ b = 0x5B) := by rcases hb with rfl | rfl <;> decide
    rw [skipValueFrom, if_neg hother.1, if_neg hother.2, if_neg fun h => absurd h.2 (Nat.succ_ne_zero depth), if_pos hb,
      if_neg (Nat.succ_ne_zero depth), Nat.add_sub_cancel]
  cases keyed with
  | false => exact hclosing 0x5D (.inr rfl)
  | true => exact hclosing 0x7D (.inl rfl)

/-- The scan stops at a comma or a bracket that ends the value. -/
theorem skipValueFrom_stop (h : b = 0x2C ∨ b = 0x7D) (bytes : List UInt8) :
    skipValueFrom 0 (b :: bytes) = some (b :: bytes) := by
  rcases h with rfl | rfl
  · rw [skipValueFrom, if_neg (by decide), if_neg (by decide), if_pos ⟨rfl, rfl⟩]
  · rw [skipValueFrom, if_neg (by decide), if_neg (by decide), if_neg (by decide), if_pos (.inl rfl), if_pos rfl]

/-- The characters of which every byte is neutral. -/
theorem neutral_of_char (h : c.toNat ∉ [0x22, 0x7B, 0x5B, 0x7D, 0x5D]) (hcomma : c.toNat = 0x2C → 0 < depth)
    (hb : b ∈ String.utf8EncodeChar c) : Neutral depth b := by
  simp only [mem_cons, not_mem_nil, or_false, not_or] at h
  refine ⟨ne_of_mem_encodeChar (n := 0x22) hb (by decide) (by omega),
    ne_of_mem_encodeChar (n := 0x7B) hb (by decide) (by omega), ne_of_mem_encodeChar (n := 0x5B) hb (by decide) (by omega),
    ne_of_mem_encodeChar (n := 0x7D) hb (by decide) (by omega), ne_of_mem_encodeChar (n := 0x5D) hb (by decide) (by omega),
    ?_⟩
  rintro rfl
  rcases mem_encodeChar hb with ⟨heq, -⟩ | ⟨hle, -⟩
  · exact hcomma heq.symm
  · exact absurd hle (by decide)

variable {text : List Char}

theorem skipValueFrom_chars
    (h : ∀ c ∈ text, c.toNat ∉ [0x22, 0x7B, 0x5B, 0x7D, 0x5D] ∧ (c.toNat = 0x2C → 0 < depth)) (bytes : List UInt8) :
    skipValueFrom depth (encode text ++ bytes) = skipValueFrom depth bytes := by
  refine skipValueFrom_neutral (fun b hb => ?_) bytes
  obtain ⟨c, hc, hb⟩ := mem_flatMap.mp hb
  exact neutral_of_char (h c hc).1 (h c hc).2 hb

theorem skipValueFrom_space (depth : ℕ) (h : Space space) (bytes : List UInt8) :
    skipValueFrom depth (encode space ++ bytes) = skipValueFrom depth bytes := by
  refine skipValueFrom_chars (fun c hc => ?_) bytes
  have hspace := h c hc
  simp only [isSpace, Bool.or_eq_true, decide_eq_true_eq] at hspace
  simp only [mem_cons, not_mem_nil, or_false, not_or]
  omega

/-- The characters of numbers. -/
def Numeral (c : Char) : Prop := 0x30 ≤ c.toNat ∧ c.toNat ≤ 0x39 ∨ c.toNat ∈ [0x2B, 0x2D, 0x2E, 0x45, 0x65]

theorem numeral_of_number {sign int fraction exponent : List Char} (h : Number sign int fraction exponent) :
    ∀ c ∈ sign ++ int ++ fraction ++ exponent, Numeral c := by
  obtain ⟨hsign, hint, hfraction, hexponent⟩ := h
  have hdigits : ∀ digits, Digits digits → ∀ c ∈ digits, Numeral c := fun digits h c hc => .inl (h.2 c hc)
  have hsignOf : ∀ c ∈ sign, Numeral c := by
    rcases hsign with rfl | rfl
    · exact forall_mem_nil _
    · exact forall_mem_singleton.mpr (.inr (by decide))
  have hintOf : ∀ c ∈ int, Numeral c := by
    rcases hint with rfl | ⟨hint, -⟩
    · exact forall_mem_singleton.mpr (.inl (by decide))
    · exact hdigits _ hint
  have hfractionOf : ∀ c ∈ fraction, Numeral c := by
    rcases hfraction with rfl | ⟨digits, hfraction, rfl⟩
    · exact forall_mem_nil _
    · exact forall_mem_cons.mpr ⟨.inr (by decide), hdigits _ hfraction⟩
  have hexponentOf : ∀ c ∈ exponent, Numeral c := by
    rcases hexponent with rfl | ⟨mark, signOf, digits, hmark, hsigned, hexponent, rfl⟩
    · exact forall_mem_nil _
    · refine forall_mem_cons.mpr ⟨?_, forall_mem_append.mpr ⟨?_, hdigits _ hexponent⟩⟩
      · rcases hmark with rfl | rfl <;> exact .inr (by decide)
      · rcases hsigned with rfl | rfl | rfl
        · exact forall_mem_nil _
        all_goals exact forall_mem_singleton.mpr (.inr (by decide))
  exact forall_mem_append.mpr ⟨forall_mem_append.mpr ⟨forall_mem_append.mpr ⟨hsignOf, hintOf⟩,
    hfractionOf⟩, hexponentOf⟩

/-- The depth at which the text is read. -/
def depthOf : Kind → ℕ
  | .value => 0
  | .items _ => 1

theorem skipValueFrom_label {keyed : Bool} {label : List Char} (h : Label keyed label) (depth : ℕ) (bytes : List UInt8) :
    skipValueFrom depth (encode label ++ bytes) = skipValueFrom depth bytes := by
  cases h with
  | none => rfl
  | key hbefore pieces hafter =>
    rw [encode_append, encode_append, encode_append, append_assoc, append_assoc, append_assoc,
      skipValueFrom_space depth hbefore, skipValueFrom_quoted, skipValueFrom_space depth hafter]
    refine skipValueFrom_chars (forall_mem_singleton.mpr ⟨by decide, fun h => absurd h (by decide)⟩) bytes

/-- A value is skipped as a whole, at every depth; the items of a container, inside of it. -/
theorem skipValueFrom_grammar {kind : Kind} (h : Grammar kind text) :
    ∀ depth, depthOf kind ≤ depth → ∀ bytes, skipValueFrom depth (encode text ++ bytes) = skipValueFrom depth bytes := by
  induction h with
  | name hname =>
    intro depth _ bytes
    refine skipValueFrom_chars (fun c hc => ?_) bytes
    have hletters : ∀ text ∈ ["true".toList, "false".toList, "null".toList], ∀ c ∈ text,
        0x61 ≤ c.toNat ∧ c.toNat ≤ 0x7A := by simp
    have hletter := hletters _ hname c hc
    simp only [mem_cons, not_mem_nil, or_false, not_or]
    omega
  | number hnumber =>
    intro depth _ bytes
    refine skipValueFrom_chars (fun c hc => ?_) bytes
    have hnumeral := numeral_of_number hnumber c hc
    simp only [Numeral, mem_cons, not_mem_nil, or_false, not_or] at hnumeral ⊢
    omega
  | string pieces => exact fun depth _ bytes => skipValueFrom_quoted depth pieces bytes
  | empty keyed hspace =>
    intro depth _ bytes
    rw [encode_cons, encode_append, append_assoc, append_assoc, ← encode_singleton, skipValueFrom_opening,
      skipValueFrom_space _ hspace, skipValueFrom_closing]
  | container hitems ih =>
    intro depth _ bytes
    rw [encode_cons, encode_append, append_assoc, append_assoc, ← encode_singleton, skipValueFrom_opening,
      ih (depth + 1) (Nat.le_add_left 1 depth), skipValueFrom_closing]
  | last hlabel hbefore hvalue hafter ih =>
    intro depth hdepth bytes
    simp only [encode_append, append_assoc]
    rw [skipValueFrom_label hlabel, skipValueFrom_space depth hbefore, ih depth (Nat.zero_le _),
      skipValueFrom_space depth hafter]
  | more hlabel hbefore hvalue hafter hrest ihvalue ihrest =>
    intro depth hdepth bytes
    simp only [encode_append, encode_cons, append_assoc]
    rw [skipValueFrom_label hlabel, skipValueFrom_space depth hbefore, ihvalue depth (Nat.zero_le _),
      skipValueFrom_space depth hafter, ← encode_singleton, skipValueFrom_chars, ihrest depth hdepth]
    exact forall_mem_singleton.mpr ⟨by decide, fun _ => hdepth⟩

/-- A value that is no string begins with neither a quote nor white space. -/
theorem string_or_unquoted (h : Grammar .value text) :
    (∃ pieces, text = quoted pieces) ∨ ∃ c rest, text = c :: rest ∧ c.toNat ≠ 0x22 ∧ 0x20 < c.toNat := by
  cases h with
  | name hname =>
    have hletters : ∀ text ∈ ["true".toList, "false".toList, "null".toList],
        ∃ c rest, text = c :: rest ∧ c.toNat ≠ 0x22 ∧ 0x20 < c.toNat := by
      simp only [mem_cons, not_mem_nil, or_false]
      rintro _ (rfl | rfl | rfl) <;> exact ⟨_, _, rfl, by decide⟩
    exact .inr (hletters _ hname)
  | @number sign int fraction exponent hnumber =>
    have hnumeral := numeral_of_number hnumber
    obtain ⟨c, rest, heq⟩ : ∃ c rest, sign ++ int ++ fraction ++ exponent = c :: rest := by
      have hne : int ≠ [] := by
        rcases hnumber.int with rfl | ⟨hdigits, -⟩
        · exact cons_ne_nil _ _
        · exact hdigits.1
      refine exists_cons_of_ne_nil fun hnil => hne ?_
      simp only [append_eq_nil_iff] at hnil
      exact hnil.1.1.2
    rw [heq, forall_mem_cons] at hnumeral
    have hc := hnumeral.1
    simp only [Numeral, mem_cons, not_mem_nil, or_false] at hc
    exact .inr ⟨c, rest, heq, by omega, by omega⟩
  | string pieces => exact .inl ⟨pieces, rfl⟩
  | empty keyed hspace | @container text keyed hitems => exact .inr ⟨_, _, rfl, by cases keyed <;> decide⟩

/-- A value is skipped up to what ends it. The white space behind a string is left. -/
theorem skipJsonValue_grammar (h : Grammar .value text) (hspace : Space space) (hb : b = 0x2C ∨ b = 0x7D)
    (bytes : List UInt8) :
    ∃ after, skipJsonValue (encode text ++ (encode space ++ b :: bytes)) = some after ∧
      skipAsciiWhitespace after = b :: bytes := by
  have hstop : isAsciiWhitespace b = false := by rcases hb with rfl | rfl <;> rfl
  rcases string_or_unquoted h with ⟨pieces, rfl⟩ | ⟨c, rest, rfl, hc, -⟩
  · refine ⟨encode space ++ b :: bytes, ?_, ?_⟩
    · have hhead : (encode (quoted pieces) ++ (encode space ++ b :: bytes)).head? = some 0x22 := rfl
      rw [skipJsonValue, if_pos hhead, skipJsonString_quoted]
    · rw [skipAsciiWhitespace_space hspace, skipAsciiWhitespace_cons hstop]
  · refine ⟨b :: bytes, ?_, skipAsciiWhitespace_cons hstop bytes⟩
    have hhead : (encode (c :: rest) ++ (encode space ++ b :: bytes)).head? ≠ some 0x22 := by
      rw [encode_cons]
      cases hchar : String.utf8EncodeChar c with
      | nil => exact absurd hchar String.utf8EncodeChar_ne_nil
      | cons byte bytes =>
        intro hquote
        have hbyte : byte ∈ String.utf8EncodeChar c := by rw [hchar]; exact mem_cons_self
        exact ne_of_mem_encodeChar (n := 0x22) hbyte (by decide) hc (Option.some.inj hquote)
    rw [skipJsonValue, if_neg hhead, skipValueFrom_grammar h 0 (Nat.le_refl 0), skipValueFrom_space 0 hspace,
      skipValueFrom_stop hb]

/-- White space ends where a value begins. -/
theorem skipAsciiWhitespace_value (h : Grammar .value text) (bytes : List UInt8) :
    skipAsciiWhitespace (encode text ++ bytes) = encode text ++ bytes := by
  rcases string_or_unquoted h with ⟨pieces, rfl⟩ | ⟨c, rest, rfl, -, hc⟩
  · exact skipAsciiWhitespace_cons rfl _
  · rw [encode_cons]
    cases hchar : String.utf8EncodeChar c with
    | nil => exact absurd hchar String.utf8EncodeChar_ne_nil
    | cons b bytes =>
      refine skipAsciiWhitespace_cons ?_ _
      have hb : b ∈ String.utf8EncodeChar c := by
        rw [hchar]
        exact mem_cons_self
      simp only [isAsciiWhitespace, Bool.or_eq_false_iff, decide_eq_false_iff_not, ← UInt8.toNat_inj, UInt8.reduceToNat]
      rcases mem_encodeChar hb with ⟨heq, -⟩ | ⟨hle, -⟩ <;> omega

/-! ## Keys -/

/-- The character that a piece is read as. -/
def readPiece : Piece → Char
  | .plain c _ _ => c
  | .escape e => e.char
  | .unicode a b c d => fromU32 (((a.value * 16 + b.value) * 16 + c.value) * 16 + d.value)

theorem fromStrRadix16_hex (a b c d : HexDigit) : fromStrRadix16 [a.char, b.char, c.char, d.char] =
    some (((a.value * 16 + b.value) * 16 + c.value) * 16 + d.value) := by
  have hsign : a.char ≠ '+' := by
    intro h
    have ha := (hexValue_eq_some a.value_eq).1
    rw [h] at ha
    exact absurd ha (by decide)
  rw [fromStrRadix16, if_neg (by simpa using hsign)]
  simp [a.value_eq, b.value_eq, c.value_eq, d.value_eq]

theorem contentsFrom_piece (out : List Char) (piece : Piece) (rest : List Char) :
    contentsFrom out (encode piece.text ++ encode rest) = contentsFrom (out ++ [readPiece piece]) (encode rest) := by
  cases piece with
  | plain c habove hunquoted =>
    have htext : encode [c] ++ encode rest = encode (c :: rest) := (encode_append [c] rest).symm
    cases hchar : String.utf8EncodeChar c with
    | nil => exact absurd hchar String.utf8EncodeChar_ne_nil
    | cons b bytes =>
      have hb : b ∈ String.utf8EncodeChar c := by
        rw [hchar]
        exact mem_cons_self
      have hcontrol : ¬ b < 0x20 := by
        have hlow : (0x20 : UInt8).toNat = 0x20 := rfl
        rw [lt_iff_toNat_lt]
        rcases mem_encodeChar hb with ⟨heq, -⟩ | ⟨hle, -⟩ <;> omega
      have hbytes : encode (c :: rest) = b :: (bytes ++ encode rest) := by
        rw [encode_cons, hchar]
        rfl
      have hlength : bytes.length = c.utf8Size - 1 := by
        rw [← String.length_utf8EncodeChar, hchar, length_cons, Nat.add_sub_cancel]
      have hquote : b ≠ 0x22 := ne_of_mem_encodeChar hb (by decide) (toNat_ne hunquoted.1)
      have hbackslash : b ≠ 0x5C := ne_of_mem_encodeChar hb (by decide) (toNat_ne hunquoted.2)
      rw [Piece.text, htext, hbytes, contentsFrom.eq_def]
      dsimp only
      rw [if_neg hquote, if_neg hbackslash, if_neg hcontrol, ← hbytes,
        fromUtf8_encode, bind_some, head?_cons, bind_some, ← hlength, drop_left]
      rfl
  | escape e =>
    obtain ⟨hascii, hunescaped, hletter⟩ := toNat_letter e
    rw [Piece.text, encode_cons, encode_cons, encodeChar_ascii hascii]
    show contentsFrom out (0x5C :: UInt8.ofNat e.letter.toNat :: encode rest) = _
    rw [contentsFrom]
    simp only [if_neg hletter, hunescaped, bind_some]
    rfl
  | unicode a b c d =>
    have hhex : encode [a.char, b.char, c.char, d.char] =
        [a, b, c, d].map fun digit => UInt8.ofNat digit.char.toNat := encode_hex [a, b, c, d]
    have hlength : (encode [a.char, b.char, c.char, d.char]).length = 4 := by rw [hhex]; rfl
    show contentsFrom out (0x5C :: 0x75 :: (encode [a.char, b.char, c.char, d.char] ++ encode rest)) = _
    rw [contentsFrom, if_neg (by decide)]
    simp only [if_true]
    rw [if_pos (by rw [length_append, hlength]; exact Nat.le_add_right 4 _), ← hlength, take_left,
      drop_left, fromUtf8_encode, bind_some, fromStrRadix16_hex]
    rfl

/-- A key is read to its end. -/
theorem jsonStringContents_quoted (pieces : List Piece) (rest : List Char) :
    jsonStringContents (encode (quoted pieces) ++ encode rest) = some (pieces.map readPiece, encode rest) := by
  have hloop : ∀ out, contentsFrom out (encode (pieces.flatMap Piece.text ++ [quote]) ++ encode rest) =
      some (out ++ pieces.map readPiece, encode rest) := by
    induction pieces with
    | nil =>
      intro out
      show contentsFrom out (0x22 :: encode rest) = _
      rw [contentsFrom.eq_def, map_nil, append_nil]
      exact if_pos rfl
    | cons piece pieces ih =>
      intro out
      rw [flatMap_cons, append_assoc, encode_append, append_assoc, ← encode_append, contentsFrom_piece,
        encode_append, ih, append_assoc]
      rfl
  show contentsFrom [] _ = _
  exact hloop []

theorem codeUnits_ascii (h : c.toNat < 0x80) : codeUnits c = [c.toNat] := if_pos (by omega)

theorem hex_lt (a b c d : HexDigit) : ((a.value * 16 + b.value) * 16 + c.value) * 16 + d.value < 0x10000 := by
  have ha := (hexValue_eq_some a.value_eq).2
  have hb := (hexValue_eq_some b.value_eq).2
  have hc := (hexValue_eq_some c.value_eq).2
  have hd := (hexValue_eq_some d.value_eq).2
  omega

/-- A piece stands for the unit of the character that it is read as, or neither is of ASCII. -/
theorem readPiece_units (piece : Piece) : piece.units = [(readPiece piece).toNat] ∨
    0x80 ≤ (readPiece piece).toNat ∧ ∃ unit rest, piece.units = unit :: rest ∧ 0x80 ≤ unit := by
  cases piece with
  | plain c habove hunquoted =>
    by_cases hc : c.toNat < 0x10000
    · exact .inl (if_pos hc)
    · exact .inr ⟨by show 0x80 ≤ c.toNat; omega, _, _, if_neg hc, by omega⟩
  | escape e =>
    refine .inl (codeUnits_ascii ?_)
    cases e <;> decide
  | unicode a b c d =>
    have hlt := hex_lt a b c d
    simp only [Piece.units, readPiece]
    generalize ((a.value * 16 + b.value) * 16 + c.value) * 16 + d.value = unit at hlt ⊢
    unfold fromU32
    split
    · rename_i hvalid
      rw [Char.ofNat, dif_pos hvalid]
      exact .inl rfl
    · rename_i hvalid
      refine .inr ⟨by decide, unit, [], rfl, ?_⟩
      -- the units that are no character are the halves of a pair
      omega

/-- A key is read as a text of ASCII exactly when it spells it. -/
theorem readPiece_eq_iff {pieces : List Piece} (hascii : ∀ c ∈ text, c.toNat < 0x80) :
    pieces.map readPiece = text ↔ Spells pieces text := by
  unfold Spells
  induction pieces generalizing text with
  | nil =>
    cases text with
    | nil => exact ⟨fun _ => rfl, fun _ => rfl⟩
    | cons c text =>
      rw [flatMap_cons, codeUnits_ascii (hascii c mem_cons_self)]
      exact ⟨fun h => (by cases h), fun h => (by cases h)⟩
  | cons piece pieces ih =>
    rw [map_cons, flatMap_cons]
    cases text with
    | nil =>
      rcases readPiece_units piece with hunit | ⟨-, unit, rest, hunit, -⟩ <;> rw [hunit] <;>
        exact ⟨fun h => (by cases h), fun h => (by cases h)⟩
    | cons c text =>
      have hc := hascii c mem_cons_self
      rw [injEq, ih fun d hd => hascii d (mem_cons_of_mem _ hd), flatMap_cons, codeUnits_ascii hc]
      rcases readPiece_units piece with hunit | ⟨hread, unit, rest, hunit, hle⟩
      · rw [hunit, singleton_append, singleton_append, injEq, Char.toNat_inj]
      · rw [hunit, cons_append, singleton_append, injEq]
        constructor
        all_goals
          rintro ⟨rfl, -⟩
          omega

/-! ## Versions -/

variable {value : List Char}

theorem encode_digits (hvalue : ∀ c ∈ value, 0x30 ≤ c.toNat ∧ c.toNat ≤ 0x39) :
    encode value = value.map fun c => UInt8.ofNat c.toNat := by
  induction value with
  | nil => rfl
  | cons c value ih =>
    rw [forall_mem_cons] at hvalue
    rw [encode_cons, encodeChar_ascii (by omega), ih hvalue.2]
    rfl

theorem isAsciiDigit_of_digits (hvalue : Digits value) (hb : b ∈ encode value) : isAsciiDigit b = true := by
  rw [encode_digits hvalue.2] at hb
  obtain ⟨c, hc, rfl⟩ := mem_map.mp hb
  have hdigit := hvalue.2 c hc
  rw [isAsciiDigit, Bool.and_eq_true, decide_eq_true_iff, decide_eq_true_iff, le_iff_toNat_le,
    le_iff_toNat_le, toNat_ofNat']
  have hlow : (0x30 : UInt8).toNat = 0x30 := rfl
  have hhigh : (0x39 : UInt8).toNat = 0x39 := rfl
  omega

/-- The digits of a value end where something else begins. -/
theorem takeWhile_digits (hvalue : Digits value) (hstop : isAsciiDigit b = false) (bytes : List UInt8) :
    (encode value ++ b :: bytes).takeWhile isAsciiDigit = encode value ∧
      (encode value ++ b :: bytes).dropWhile isAsciiDigit = b :: bytes := by
  have hall : ∀ byte ∈ encode value, isAsciiDigit byte = true := fun _ hb => isAsciiDigit_of_digits hvalue hb
  constructor
  · rw [takeWhile_append_of_pos hall, takeWhile_cons_of_neg (by simp [hstop]), append_nil]
  · rw [dropWhile_append_of_pos hall, dropWhile_cons_of_neg (by simp [hstop])]

theorem parseVersion_encode (hvalue : Digits value) :
    parseVersion (encode value) = min (decimal value) (2 ^ 32 - 1) := by
  have hfold : ∀ n, (encode value).foldl (fun n b => n * 10 + (b.toNat - 0x30)) n =
      value.foldl (fun n c => n * 10 + (c.toNat - 0x30)) n := by
    rw [encode_digits hvalue.2]
    have hdigits := hvalue.2
    clear hvalue
    induction value with
    | nil => exact fun _ => rfl
    | cons c value ih =>
      intro n
      rw [forall_mem_cons] at hdigits
      have hmod : (UInt8.ofNat c.toNat).toNat = c.toNat := by
        rw [toNat_ofNat']
        omega
      rw [map_cons, foldl_cons, foldl_cons, hmod, ih hdigits.2]
  unfold parseVersion decimal
  rw [hfold 0]
  dsimp only
  split <;> omega

/-! ## Members -/

/-- The key of the member spells the name. -/
def Named (m : Member) : Prop := Spells m.key formatVersion

instance (m : Member) : Decidable (Named m) := inferInstanceAs (Decidable (Spells _ _))

/-- What is found behind the members, last wins. -/
def foundBy (found : Option ℕ) (members : List Member) : Option ℕ :=
  members.foldl (fun found m => if Named m then some (min (decimal m.value) (2 ^ 32 - 1)) else found) found

/-- White space and commas before a member are passed over. -/
theorem topLevelFrom_congr (found : Option ℕ) {bytes' : List UInt8}
    (h : skipCommas (skipAsciiWhitespace bytes) = skipCommas (skipAsciiWhitespace bytes')) :
    topLevelFrom found bytes = topLevelFrom found bytes' := by
  rw [topLevelFrom, topLevelFrom, h]

theorem topLevelFrom_comma (found : Option ℕ) (bytes : List UInt8) :
    topLevelFrom found (0x2C :: bytes) = topLevelFrom found bytes := by
  refine topLevelFrom_congr found ?_
  rw [skipAsciiWhitespace_cons rfl, skipCommas, if_pos rfl]

/-- The scan ends at the brace of the object. -/
theorem topLevelFrom_closing (found : Option ℕ) (bytes : List UInt8) : topLevelFrom found (0x7D :: bytes) = found := by
  have hkey : skipCommas (skipAsciiWhitespace (0x7D :: bytes)) = 0x7D :: bytes := by
    rw [skipAsciiWhitespace_cons rfl, skipCommas, if_neg (by decide)]
  rw [topLevelFrom]
  split
  · rename_i h
    rw [hkey] at h
    cases h
  · rename_i h
    rw [hkey] at h
    obtain ⟨rfl, -⟩ := inj h
    exact if_neg (by decide)

theorem topLevelFrom_key (found : Option ℕ) {keyBytes next value : List UInt8}
    (hkey : skipCommas (skipAsciiWhitespace bytes) = 0x22 :: keyBytes)
    (hcontents : jsonStringContents (0x22 :: keyBytes) = some (key, next))
    (hcolon : skipAsciiWhitespace next = 0x3A :: value) :
    topLevelFrom found bytes = if key = formatVersion then
        if (skipAsciiWhitespace value).takeWhile isAsciiDigit = [] then none
        else topLevelFrom (some (parseVersion ((skipAsciiWhitespace value).takeWhile isAsciiDigit)))
          ((skipAsciiWhitespace value).dropWhile isAsciiDigit)
      else (skipJsonValue (skipAsciiWhitespace value)).bind (topLevelFrom found) := by
  rw [topLevelFrom]
  split
  · rename_i h
    rw [hkey] at h
    cases h
  · rename_i h
    rw [hkey] at h
    obtain ⟨rfl, rfl⟩ := inj h
    rw [if_pos rfl]
    split
    · rename_i h
      rw [hcontents] at h
      cases h
    · rename_i h
      rw [hcontents] at h
      obtain ⟨rfl, rfl⟩ := Prod.mk.inj (Option.some.inj h)
      split
      · rename_i h
        rw [hcolon] at h
        cases h
      · rename_i h
        rw [hcolon] at h
        obtain ⟨rfl, rfl⟩ := inj h
        rw [if_pos rfl]
        dsimp only
        split
        · rfl
        · split
          all_goals
            rename_i h
            rw [h]
            rfl

/-- One member is read, and the scan goes on behind its value. -/
theorem topLevelFrom_member {before between after : List Char} (key : List Piece) (hbefore : Space before)
    (hbetween : Space between) (hspace : Space space) (hvalue : Grammar .value value) (hafter : Space after)
    (hdigits : Named ⟨key, value⟩ → Digits value) (hc : c = comma ∨ c = closing true) (rest : List Char)
    (found : Option ℕ) :
    topLevelFrom found (encode (before ++ quoted key ++ between ++ [colon] ++ space ++ value ++ after ++ c :: rest)) =
      topLevelFrom (foundBy found [⟨key, value⟩]) (encode (c :: rest)) := by
  obtain ⟨b, hb, htail⟩ : ∃ b : UInt8, (b = 0x2C ∨ b = 0x7D) ∧ encode (c :: rest) = b :: encode rest := by
    rcases hc with rfl | rfl
    · exact ⟨0x2C, .inl rfl, rfl⟩
    · exact ⟨0x7D, .inr rfl, rfl⟩
  have hbSpace : isAsciiWhitespace b = false := by rcases hb with rfl | rfl <;> rfl
  have hbDigit : isAsciiDigit b = false := by rcases hb with rfl | rfl <;> rfl
  have hkey : skipCommas (skipAsciiWhitespace
      (encode (before ++ quoted key ++ between ++ [colon] ++ space ++ value ++ after ++ c :: rest))) =
      encode (quoted key) ++ encode (between ++ [colon] ++ space ++ value ++ after ++ c :: rest) := by
    simp only [encode_append, append_assoc]
    rw [skipAsciiWhitespace_space hbefore]
    show skipCommas (skipAsciiWhitespace (0x22 :: _)) = 0x22 :: _
    rw [skipAsciiWhitespace_cons rfl, skipCommas, if_neg (by decide)]
  have hcolon : skipAsciiWhitespace (encode (between ++ [colon] ++ space ++ value ++ after ++ c :: rest)) =
      0x3A :: encode (space ++ value ++ after ++ c :: rest) := by
    simp only [encode_append, append_assoc]
    rw [skipAsciiWhitespace_space hbetween]
    exact skipAsciiWhitespace_cons rfl _
  have hread := topLevelFrom_key found hkey (jsonStringContents_quoted key _) hcolon
  have hbytes : skipAsciiWhitespace (encode (space ++ value ++ after ++ c :: rest)) =
      encode value ++ (encode after ++ b :: encode rest) := by
    simp only [encode_append, append_assoc]
    rw [skipAsciiWhitespace_space hspace, skipAsciiWhitespace_value hvalue, htail]
  rw [hbytes] at hread
  rw [hread, htail]
  have hspells : key.map readPiece = formatVersion ↔ Named ⟨key, value⟩ := readPiece_eq_iff fun c hc =>
    of_decide_eq_true (all_eq_true.mp (by decide : formatVersion.all (·.toNat < 0x80) = true) c hc)
  by_cases hnamed : Named ⟨key, value⟩
  · have hvalueDigits := hdigits hnamed
    -- the digits end at the white space behind them, or at what ends the member
    obtain ⟨stop, bytes, hstop, hafterBytes⟩ : ∃ stop bytes, isAsciiDigit stop = false ∧
        encode after ++ b :: encode rest = stop :: bytes := by
      cases after with
      | nil => exact ⟨b, _, hbDigit, rfl⟩
      | cons s after =>
        have hs := hafter s mem_cons_self
        simp only [isSpace, Bool.or_eq_true, decide_eq_true_eq] at hs
        rw [encode_cons, encodeChar_ascii (by omega)]
        refine ⟨UInt8.ofNat s.toNat, _, ?_, rfl⟩
        rcases hs with ((hs | hs) | hs) | hs <;> rw [hs] <;> rfl
    obtain ⟨htake, hdrop⟩ := takeWhile_digits hvalueDigits hstop bytes
    rw [if_pos (hspells.mpr hnamed), hafterBytes, htake, hdrop, if_neg, ← hafterBytes, parseVersion_encode hvalueDigits]
    · have hfound : foundBy found [⟨key, value⟩] = some (min (decimal value) (2 ^ 32 - 1)) := if_pos hnamed
      rw [hfound]
      refine topLevelFrom_congr _ ?_
      rw [skipAsciiWhitespace_space hafter]
    · rw [encode_digits hvalueDigits.2, map_eq_nil_iff]
      exact hvalueDigits.1
  · obtain ⟨after', hskip, hspaceAfter⟩ := skipJsonValue_grammar hvalue hafter hb (encode rest)
    have hfound : foundBy found [⟨key, value⟩] = found := if_neg hnamed
    rw [if_neg fun h => hnamed (hspells.mp h), hskip, hfound]
    refine topLevelFrom_congr _ ?_
    rw [hspaceAfter, skipAsciiWhitespace_cons hbSpace]

/-- The members are read one after the other, to the brace that ends them. -/
theorem topLevelFrom_members {members : List Member} (h : Members members text)
    (hdigits : ∀ m ∈ members, Named m → Digits m.value) (rest : List Char) (found : Option ℕ) :
    topLevelFrom found (encode (text ++ closing true :: rest)) = foundBy found members := by
  induction h generalizing found with
  | last key hbefore hbetween hspace hvalue hafter =>
    rw [topLevelFrom_member key hbefore hbetween hspace hvalue hafter (hdigits _ mem_cons_self) (.inr rfl)]
    exact topLevelFrom_closing _ _
  | @more before between space value after more members key hbefore hbetween hspace hvalue hafter hrest ih =>
    have hassoc : before ++ quoted key ++ between ++ [colon] ++ space ++ value ++ after ++ comma :: more ++
        closing true :: rest =
        before ++ quoted key ++ between ++ [colon] ++ space ++ value ++ after ++ comma :: (more ++ closing true :: rest) := by
      rw [append_assoc, cons_append]
    rw [hassoc, topLevelFrom_member key hbefore hbetween hspace hvalue hafter (hdigits _ mem_cons_self) (.inl rfl)]
    show topLevelFrom _ (0x2C :: encode (more ++ closing true :: rest)) = _
    rw [topLevelFrom_comma, ih fun m hm => hdigits m (mem_cons_of_mem _ hm)]
    rfl

/-- The last top-level version of an object is read, whatever stands around it and in the other members. -/
theorem topLevelFormatVersion_object {members : List Member} (h : ObjectText members text)
    (hdigits : ∀ m ∈ members, Named m → Digits m.value) :
    topLevelFormatVersion (encode text) = foundBy none members := by
  rw [topLevelFormatVersion, fromUtf8_encode, bind_some]
  have hopen : ∀ before rest, Space before →
      skipAsciiWhitespace (encode (before ++ opening true :: rest)) = 0x7B :: encode rest := by
    intro before rest hbefore
    rw [encode_append, skipAsciiWhitespace_space hbefore]
    exact skipAsciiWhitespace_cons rfl _
  cases h with
  | @empty before inside after hbefore hinside hafter =>
    rw [hopen _ _ hbefore]
    dsimp only
    have hclosing : topLevelFrom none (encode (inside ++ closing true :: after)) =
        topLevelFrom none (0x7D :: encode after) := by
      refine topLevelFrom_congr none ?_
      rw [encode_append, skipAsciiWhitespace_space hinside]
      rfl
    rw [hclosing, topLevelFrom_closing]
    rfl
  | members hbefore hmembers hafter =>
    rw [hopen _ _ hbefore]
    dsimp only
    rw [if_pos rfl, topLevelFrom_members hmembers hdigits]

theorem foundBy_filter (found : Option ℕ) (members : List Member) :
    foundBy found members = foundBy found (members.filter Named) := by
  induction members generalizing found with
  | nil => rfl
  | cons m members ih =>
    by_cases hm : Named m
    · have hfilter : (m :: members).filter Named = m :: members.filter Named :=
        filter_cons_of_pos (decide_eq_true hm)
      rw [hfilter]
      exact ih _
    · have hfilter : (m :: members).filter Named = members.filter Named :=
        filter_cons_of_neg (by simpa using hm)
      rw [hfilter]
      have hskip : foundBy found (m :: members) = foundBy found members := congrArg (foundBy · members) (if_neg hm)
      rw [hskip, ih]

/-- The version of an object's text is 1 without a top-level version, and the literal of the only one with it, up to the
greatest version. -/
theorem projectFormatVersion_object {members : List Member} {text : List Char} (h : ObjectText members text)
    (honce : (members.filter Named).length ≤ 1) :
    ((∀ m ∈ members, ¬ Named m) → projectFormatVersion (encode text) = 1) ∧ ∀ m ∈ members, Named m → Digits m.value →
        projectFormatVersion (encode text) = min (decimal m.value) (2 ^ 32 - 1) := by
  unfold projectFormatVersion
  constructor
  · intro hnone
    have hfilter : members.filter Named = [] := filter_eq_nil_iff.mpr fun m hm => by simpa using hnone m hm
    rw [topLevelFormatVersion_object h fun m hm hnamed => absurd hnamed (hnone m hm), foundBy_filter, hfilter]
    rfl
  · intro m hm hnamed hvalue
    have hmem : ∀ m' ∈ members, Named m' → m' ∈ members.filter Named := fun m' hm' hnamed' =>
      mem_filter.mpr ⟨hm', decide_eq_true hnamed'⟩
    -- the named member is the only one
    obtain ⟨only, hfilter⟩ := length_eq_one_iff.mp (Nat.le_antisymm honce (length_pos_of_mem (hmem m hm hnamed)))
    have honly : ∀ m' ∈ members, Named m' → m' = only := fun m' hm' hnamed' => by
      have hin := hmem m' hm' hnamed'
      rw [hfilter] at hin
      exact mem_singleton.mp hin
    have hdigits : ∀ m' ∈ members, Named m' → Digits m'.value := fun m' hm' hnamed' => by
      rw [honly m' hm' hnamed', ← honly m hm hnamed]
      exact hvalue
    have hfound : foundBy none [m] = some (min (decimal m.value) (2 ^ 32 - 1)) := if_pos hnamed
    rw [topLevelFormatVersion_object h hdigits, foundBy_filter, hfilter, ← honly m hm hnamed, hfound, getD_some]

/-- The key, its second letter as a code unit. -/
def escapedKey : List Piece :=
  .plain 'f' (by decide) (by decide) :: .unicode ⟨'0', 0, rfl⟩ ⟨'0', 0, rfl⟩ ⟨'6', 6, rfl⟩ ⟨'F', 15, rfl⟩ ::
    [.plain 'r' (by decide) (by decide), .plain 'm' (by decide) (by decide), .plain 'a' (by decide) (by decide),
      .plain 't' (by decide) (by decide), .plain '_' (by decide) (by decide), .plain 'v' (by decide) (by decide),
      .plain 'e' (by decide) (by decide), .plain 'r' (by decide) (by decide), .plain 's' (by decide) (by decide),
      .plain 'i' (by decide) (by decide), .plain 'o' (by decide) (by decide), .plain 'n' (by decide) (by decide)]

/-- A string with a quote and a brace comes first. -/
theorem projectFormatVersion_escapedKey : ∃ text,
    ObjectText [⟨[.plain 'a' (by decide) (by decide)], quoted [.escape .quote, .plain (closing true) (by decide) (by decide)]⟩,
      ⟨escapedKey, ['7']⟩] text ∧ projectFormatVersion (encode text) = 7 := by
  have hspace : Space [] := forall_mem_nil _
  have hseven : Digits ['7'] := ⟨cons_ne_nil _ _, forall_mem_singleton.mpr (by decide)⟩
  have hnumber : Number [] ['7'] [] [] := ⟨.inl rfl, .inr ⟨hseven, by decide⟩, .inl rfl, .inl rfl⟩
  have htext := ObjectText.members hspace (.more [.plain 'a' (by decide) (by decide)] hspace hspace hspace
    (.string [.escape .quote, .plain (closing true) (by decide) (by decide)]) hspace
    (.last escapedKey hspace hspace hspace (.number hnumber) hspace)) hspace
  exact ⟨_, htext, (projectFormatVersion_object htext (by decide)).2 ⟨escapedKey, ['7']⟩ (by simp) (by decide) hseven⟩

end Kinewright.Model.FormatVersion
