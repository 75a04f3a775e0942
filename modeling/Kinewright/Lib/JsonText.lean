import Mathlib.Data.List.Basic

/-!
# JSON texts

The texts of RFC 8259, character by character: white space, strings with their escapes, numbers, and the values that are made
of them. The members of an object are the keys with the texts of their values.
-/

namespace JsonText

/-! ## Characters -/

def quote : Char := Char.ofNat 0x22

def backslash : Char := Char.ofNat 0x5C

def comma : Char := Char.ofNat 0x2C

def colon : Char := Char.ofNat 0x3A

/-- The character that opens an object, or an array. -/
def opening (keyed : Bool) : Char := if keyed then Char.ofNat 0x7B else Char.ofNat 0x5B

def closing (keyed : Bool) : Char := if keyed then Char.ofNat 0x7D else Char.ofNat 0x5D

/-- White space. -/
def isSpace (c : Char) : Bool := c.toNat = 0x20 || c.toNat = 0x09 || c.toNat = 0x0A || c.toNat = 0x0D

/-- A stretch of white space. -/
def Space (text : List Char) : Prop := ∀ c ∈ text, isSpace c = true

/-! ## Strings -/

/-- The characters with an escape of two characters, by the second one. -/
inductive Escape
  | quote
  | backslash
  | solidus
  | backspace
  | formFeed
  | lineFeed
  | carriageReturn
  | tab
deriving DecidableEq

def Escape.letter : Escape → Char
  | .quote => JsonText.quote
  | .backslash => JsonText.backslash
  | .solidus => '/'
  | .backspace => 'b'
  | .formFeed => 'f'
  | .lineFeed => 'n'
  | .carriageReturn => 'r'
  | .tab => 't'

/-- The character that the escape stands for. -/
def Escape.char : Escape → Char
  | .quote => JsonText.quote
  | .backslash => JsonText.backslash
  | .solidus => '/'
  | .backspace => Char.ofNat 0x08
  | .formFeed => Char.ofNat 0x0C
  | .lineFeed => Char.ofNat 0x0A
  | .carriageReturn => Char.ofNat 0x0D
  | .tab => Char.ofNat 0x09

/-- The value of a hexadecimal digit. -/
def hexValue (c : Char) : Option ℕ :=
  if 0x30 ≤ c.toNat ∧ c.toNat ≤ 0x39 then some (c.toNat - 0x30)
  else if 0x61 ≤ c.toNat ∧ c.toNat ≤ 0x66 then some (c.toNat - 0x57)
  else if 0x41 ≤ c.toNat ∧ c.toNat ≤ 0x46 then some (c.toNat - 0x37)
  else none

theorem hexValue_eq_some {c : Char} {value : ℕ} (h : hexValue c = some value) :
    (0x30 ≤ c.toNat ∧ c.toNat ≤ 0x39 ∨ 0x61 ≤ c.toNat ∧ c.toNat ≤ 0x66 ∨ 0x41 ≤ c.toNat ∧ c.toNat ≤ 0x46) ∧
      value < 16 := by
  unfold hexValue at h
  split at h
  · obtain rfl := Option.some.inj h
    omega
  · split at h
    · obtain rfl := Option.some.inj h
      omega
    · split at h
      · obtain rfl := Option.some.inj h
        omega
      · cases h

/-- A hexadecimal digit, with its value. -/
structure HexDigit where
  char : Char
  value : ℕ
  value_eq : hexValue char = some value

/-- A piece of a string: a character, an escape, or a code unit in four digits. -/
inductive Piece
  | plain (c : Char) (above : 0x20 ≤ c.toNat) (unquoted : c ≠ quote ∧ c ≠ backslash)
  | escape (e : Escape)
  | unicode (a b c d : HexDigit)

def Piece.text : Piece → List Char
  | .plain c _ _ => [c]
  | .escape e => [backslash, e.letter]
  | .unicode a b c d => [backslash, 'u', a.char, b.char, c.char, d.char]

/-- A string, with its quotes. -/
def quoted (pieces : List Piece) : List Char := quote :: (pieces.flatMap Piece.text ++ [quote])

/-- The code units of a character in UTF-16. -/
def codeUnits (c : Char) : List ℕ :=
  if c.toNat < 0x10000 then [c.toNat]
  else [0xD800 + (c.toNat - 0x10000) / 0x400, 0xDC00 + (c.toNat - 0x10000) % 0x400]

/-- The code units that a piece stands for. -/
def Piece.units : Piece → List ℕ
  | .plain c _ _ => codeUnits c
  | .escape e => codeUnits e.char
  | .unicode a b c d => [((a.value * 16 + b.value) * 16 + c.value) * 16 + d.value]

/-- The string spells the characters, in whatever spelling. -/
def Spells (pieces : List Piece) (text : List Char) : Prop := pieces.flatMap Piece.units = text.flatMap codeUnits

instance (pieces : List Piece) (text : List Char) : Decidable (Spells pieces text) :=
  inferInstanceAs (Decidable (_ = _))

/-! ## Numbers -/

/-- Decimal digits. -/
def Digits (text : List Char) : Prop := text ≠ [] ∧ ∀ c ∈ text, 0x30 ≤ c.toNat ∧ c.toNat ≤ 0x39

/-- A number: sign, integer, fraction and exponent. -/
structure Number (sign int fraction exponent : List Char) : Prop where
  sign : sign = [] ∨ sign = ['-']
  int : int = ['0'] ∨ Digits int ∧ int.head? ≠ some '0'
  fraction : fraction = [] ∨ ∃ digits, Digits digits ∧ fraction = '.' :: digits
  exponent : exponent = [] ∨ ∃ mark sign digits, (mark = 'e' ∨ mark = 'E') ∧
    (sign = [] ∨ sign = ['+'] ∨ sign = ['-']) ∧ Digits digits ∧ exponent = mark :: (sign ++ digits)

/-- The number that decimal digits stand for. -/
def decimal (text : List Char) : ℕ := text.foldl (fun n c => n * 10 + (c.toNat - 0x30)) 0

/-! ## Values -/

/-- What stands before a value in a container: a key in an object, nothing in an array. -/
inductive Label : Bool → List Char → Prop
  | none : Label false []
  | key {before after : List Char} (hbefore : Space before) (pieces : List Piece) (hafter : Space after) :
      Label true (before ++ quoted pieces ++ after ++ [colon])

/-- A value, or the items of a container. -/
inductive Kind
  | value
  | items (keyed : Bool)

inductive Grammar : Kind → List Char → Prop
  | name {text : List Char} : text ∈ ["true".toList, "false".toList, "null".toList] → Grammar .value text
  | number {sign int fraction exponent : List Char} :
      Number sign int fraction exponent → Grammar .value (sign ++ int ++ fraction ++ exponent)
  | string (pieces : List Piece) : Grammar .value (quoted pieces)
  | empty {space : List Char} (keyed : Bool) : Space space → Grammar .value (opening keyed :: (space ++ [closing keyed]))
  | container {text : List Char} {keyed : Bool} :
      Grammar (.items keyed) text → Grammar .value (opening keyed :: (text ++ [closing keyed]))
  | last {keyed : Bool} {label before value after : List Char} : Label keyed label → Space before →
      Grammar .value value → Space after → Grammar (.items keyed) (label ++ before ++ value ++ after)
  | more {keyed : Bool} {label before value after rest : List Char} : Label keyed label → Space before →
      Grammar .value value → Space after → Grammar (.items keyed) rest →
      Grammar (.items keyed) (label ++ before ++ value ++ after ++ comma :: rest)

/-- A member of an object: the key and the text of the value. -/
structure Member where
  key : List Piece
  value : List Char

/-- The members of an object, from the text between its braces. -/
inductive Members : List Member → List Char → Prop
  | last {before between colon' value after : List Char} (key : List Piece) : Space before → Space between → Space colon' →
      Grammar .value value → Space after →
      Members [⟨key, value⟩] (before ++ quoted key ++ between ++ [colon] ++ colon' ++ value ++ after)
  | more {before between colon' value after rest : List Char} {members : List Member} (key : List Piece) : Space before →
      Space between → Space colon' → Grammar .value value → Space after → Members members rest →
      Members (⟨key, value⟩ :: members)
        (before ++ quoted key ++ between ++ [colon] ++ colon' ++ value ++ after ++ comma :: rest)

/-- The text of an object, with white space around it. -/
inductive ObjectText : List Member → List Char → Prop
  | empty {before inside after : List Char} : Space before → Space inside → Space after →
      ObjectText [] (before ++ opening true :: (inside ++ closing true :: after))
  | members {before inside after : List Char} {members : List Member} : Space before → Members members inside →
      Space after → ObjectText members (before ++ opening true :: (inside ++ closing true :: after))

end JsonText
