import Mathlib.Data.Int.Notation
import Mathlib.Data.Nat.Notation
import Mathlib.Tactic.SplitIfs

/-!
# Values of a serializer, and their compact JSON

What a type may tell a serializer of itself, but for numbers with a fraction and raw bytes, and the text that the compact format makes
of it: no white space between its parts, and in a string only quotes, backslashes and control characters escaped.
-/

namespace SerdeJson

open List

/-- The sequences of which the serializer knows the kind. They are all written alike. -/
inductive Sequence
  | seq | tuple | tupleStruct
deriving DecidableEq

mutual

inductive Value
  | bool (value : Bool)
  | int (value : ℤ)
  | char (value : Char)
  | str (value : String)
  | none
  | some (value : Value)
  | unit
  | unitStruct (name : String)
  | unitVariant (variant : String)
  | newtypeStruct (name : String) (value : Value)
  | newtypeVariant (variant : String) (value : Value)
  | seq (kind : Sequence) (items : Values)
  | tupleVariant (variant : String) (items : Values)
  | map (entries : Entries)
  | struct (name : String) (fields : Entries)
  | structVariant (variant : String) (fields : Entries)

inductive Values
  | nil
  | cons (value : Value) (rest : Values)

/-- The entries of a map, or the fields of a structure, of which some may be left out. -/
inductive Entries
  | nil
  | cons (key : String) (value : Value) (rest : Entries)
  | skip (key : String) (rest : Entries)

end

/-! ## The text -/

def hexDigit (n : ℕ) : Char := if n < 10 then Char.ofNat (0x30 + n) else Char.ofNat (0x57 + n)

def escape (c : Char) : List Char :=
  if c.toNat = 0x22 then ['\\', Char.ofNat 0x22]
  else if c.toNat = 0x5C then ['\\', '\\']
  else if c.toNat = 0x08 then ['\\', 'b']
  else if c.toNat = 0x09 then ['\\', 't']
  else if c.toNat = 0x0A then ['\\', 'n']
  else if c.toNat = 0x0C then ['\\', 'f']
  else if c.toNat = 0x0D then ['\\', 'r']
  else if c.toNat ≤ 0x1F then ['\\', 'u', '0', '0', hexDigit (c.toNat / 16), hexDigit (c.toNat % 16)]
  else [c]

def quoted (text : List Char) : List Char := Char.ofNat 0x22 :: (text.flatMap escape ++ [Char.ofNat 0x22])

def decimal (n : ℤ) : List Char := (if n < 0 then ['-'] else []) ++ Nat.toDigits 10 n.natAbs

/-- An object with one member. -/
def tagged (variant : String) (text : List Char) : List Char :=
  Char.ofNat 0x7B :: (quoted variant.toList ++ ':' :: (text ++ [Char.ofNat 0x7D]))

mutual

def Value.text : Value → List Char
  | .bool value => if value then "true".toList else "false".toList
  | .int value => decimal value
  | .char value => quoted [value]
  | .str value => quoted value.toList
  | .none | .unit | .unitStruct _ => "null".toList
  | .some value | .newtypeStruct _ value => value.text
  | .unitVariant variant => quoted variant.toList
  | .newtypeVariant variant value => tagged variant value.text
  | .seq _ items => '[' :: (items.text true ++ [']'])
  | .tupleVariant variant items => tagged variant ('[' :: (items.text true ++ [']']))
  | .map entries | .struct _ entries => Char.ofNat 0x7B :: (entries.text true ++ [Char.ofNat 0x7D])
  | .structVariant variant fields => tagged variant (Char.ofNat 0x7B :: (fields.text true ++ [Char.ofNat 0x7D]))

/-- The items, each but the first behind a comma. -/
def Values.text (first : Bool) : Values → List Char
  | .nil => []
  | .cons value rest => (if first then [] else [',']) ++ value.text ++ rest.text false

def Entries.text (first : Bool) : Entries → List Char
  | .nil => []
  | .cons key value rest => (if first then [] else [',']) ++ quoted key.toList ++ ':' :: value.text ++ rest.text false
  | .skip _ rest => rest.text first

end

/-- The bytes of characters. -/
def utf8 (text : List Char) : List UInt8 := text.flatMap String.utf8EncodeChar

/-- `serde_json::to_vec`. -/
def Value.bytes (value : Value) : List UInt8 := utf8 value.text

example : (Value.structVariant "Move" (.cons "to" (.seq .tuple (.cons (.int (-12)) (.cons (.str "\n") .nil))) (.skip "by" .nil))).text =
    "\x7b\"Move\":\x7b\"to\":[-12,\"\\n\"]\x7d\x7d".toList := by decide +kernel

/-- Beyond the ASCII characters no byte is one. -/
theorem le_of_mem_utf8EncodeChar {c : Char} (h : 0x80 ≤ c.toNat) {byte : UInt8} (hbyte : byte ∈ String.utf8EncodeChar c) :
    0x80 ≤ byte.toNat := by
  have hval : c.val.toNat = c.toNat := rfl
  simp only [String.utf8EncodeChar, hval] at hbyte
  rw [if_neg (by omega)] at hbyte
  split at hbyte
  · simp only [mem_cons, not_mem_nil, or_false] at hbyte
    rcases hbyte with rfl | rfl <;> simp only [UInt8.toNat_ofNat'] <;> omega
  · split at hbyte
    · simp only [mem_cons, not_mem_nil, or_false] at hbyte
      rcases hbyte with rfl | rfl | rfl <;> simp only [UInt8.toNat_ofNat'] <;> omega
    · simp only [mem_cons, not_mem_nil, or_false] at hbyte
      rcases hbyte with rfl | rfl | rfl | rfl <;> simp only [UInt8.toNat_ofNat'] <;> omega

/-! ## No control characters -/

/-- A text without control characters: nothing ends a line in it. -/
def Printable (text : List Char) : Prop := ∀ c ∈ text, 0x20 ≤ c.toNat

instance (text : List Char) : Decidable (Printable text) := List.decidableBAll _ text

namespace Printable

variable {text text' : List Char}

theorem append (h : Printable text) (h' : Printable text') : Printable (text ++ text') := by
  intro c hc
  exact (mem_append.mp hc).elim (h c) (h' c)

theorem cons {c : Char} (hc : 0x20 ≤ c.toNat) (h : Printable text) : Printable (c :: text) :=
  forall_mem_cons.mpr ⟨hc, h⟩

theorem utf8 (h : Printable text) {byte : UInt8} (hbyte : byte ∈ utf8 text) : 0x20 ≤ byte.toNat := by
  obtain ⟨c, hc, hbyte⟩ := mem_flatMap.mp hbyte
  rcases Nat.lt_or_ge c.toNat 0x80 with hascii | hbeyond
  · have hval : c.val.toNat = c.toNat := rfl
    have hle := h c hc
    rw [String.utf8EncodeChar, if_pos (by omega), mem_singleton] at hbyte
    rw [hbyte, UInt8.toNat_ofNat']
    omega
  · have hle := le_of_mem_utf8EncodeChar hbeyond hbyte
    omega

theorem escape (c : Char) : Printable (escape c) := by
  rcases Nat.lt_or_ge c.toNat 0x20 with hcontrol | hother
  · have hall : ∀ n < 0x20, Printable (SerdeJson.escape (Char.ofNat n)) := by decide
    rw [← Char.ofNat_toNat c]
    exact hall c.toNat hcontrol
  · unfold SerdeJson.escape
    split_ifs
    all_goals first | decide | omega | exact cons hother (by decide)

theorem quoted (text : List Char) : Printable (quoted text) := by
  refine cons (by decide) (append ?_ (by decide))
  intro c hc
  obtain ⟨c', -, hc⟩ := mem_flatMap.mp hc
  exact escape c' c hc

theorem decimal (n : ℤ) : Printable (decimal n) := by
  refine append (by split <;> decide) fun c hc => ?_
  have hdigit := Nat.isDigit_of_mem_toDigits (by decide) (by decide) hc
  exact Nat.le_trans (by decide) (Char.isDigit_iff_toNat.mp hdigit).1

theorem tagged (variant : String) (h : Printable text) : Printable (tagged variant text) :=
  cons (by decide) (append (quoted _) (cons (by decide) (append h (by decide))))

end Printable

mutual

theorem Value.printable : ∀ value : Value, Printable value.text
  | .bool value => by cases value <;> decide
  | .int value => .decimal value
  | .char value => .quoted [value]
  | .str value => .quoted value.toList
  | .none | .unit | .unitStruct _ => (by decide : Printable "null".toList)
  | .some value | .newtypeStruct _ value => value.printable
  | .unitVariant variant => .quoted variant.toList
  | .newtypeVariant variant value => .tagged variant value.printable
  | .seq _ items => .cons (by decide) (.append (items.printable true) (by decide))
  | .tupleVariant variant items => .tagged variant (.cons (by decide) (.append (items.printable true) (by decide)))
  | .map entries | .struct _ entries => .cons (by decide) (.append (entries.printable true) (by decide))
  | .structVariant variant fields => .tagged variant (.cons (by decide) (.append (fields.printable true) (by decide)))

theorem Values.printable (first : Bool) : ∀ items : Values, Printable (items.text first)
  | .nil => (by decide : Printable [])
  | .cons value rest => .append (.append (by cases first <;> decide) value.printable) (rest.printable false)

theorem Entries.printable (first : Bool) : ∀ entries : Entries, Printable (entries.text first)
  | .nil => (by decide : Printable [])
  | .cons key value rest =>
    .append (.append (.append (by cases first <;> decide) (.quoted _)) (.cons (by decide) value.printable)) (rest.printable false)
  | .skip _ rest => rest.printable first

end

end SerdeJson
