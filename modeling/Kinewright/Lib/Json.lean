import Mathlib.Data.String.Basic

/-!
# JSON values

The values that a serializer writes. A record writes a field or leaves it out.
-/

/-- A JSON value. An object's names stand beside its values. -/
inductive Json
  | null
  | bool (value : Bool)
  | number (value : ℤ)
  | string (value : String)
  | array (values : List Json)
  | object (names : List String) (values : List Json)

namespace Json

/-- The fields that are written, in order. -/
def present (fields : List (String × Option Json)) : List (String × Json) :=
  fields.filterMap fun field => field.2.map fun value => (field.1, value)

/-- The object with the fields that are written. -/
def record (fields : List (String × Option Json)) : Json :=
  .object ((present fields).map Prod.fst) ((present fields).map Prod.snd)

/-! ## Serializers -/

/-- `serde::Serialize`, through `serde_json::to_value`. -/
class Serialize (α : Type) where
  toValue : α → Json

export Serialize (toValue)

variable {α β : Type} [Serialize α] [Serialize β]

/-- A field that is written always. -/
def field (value : α) : Option Json := some (toValue value)

instance : Serialize Json := ⟨id⟩
instance : Serialize Bool := ⟨.bool⟩
instance : Serialize String := ⟨.string⟩
instance : Serialize ℕ := ⟨fun n => .number n⟩
instance : Serialize Int64 := ⟨fun n => .number n.toInt⟩
instance : Serialize Int32 := ⟨fun n => .number n.toInt⟩
instance : Serialize UInt8 := ⟨fun n => .number n.toNat⟩
instance : Serialize UInt16 := ⟨fun n => .number n.toNat⟩
instance : Serialize UInt32 := ⟨fun n => .number n.toNat⟩
instance : Serialize UInt64 := ⟨fun n => .number n.toNat⟩
instance : Serialize (List α) := ⟨fun values => .array (values.map toValue)⟩
instance : Serialize (α × β) := ⟨fun pair => .array [toValue pair.1, toValue pair.2]⟩

instance : Serialize (Option α) where
  toValue
    | none => .null
    | some value => toValue value

/-! ## Bytes -/

/-- The bytes of a string. -/
def utf8 (s : String) : List UInt8 := s.toByteArray.data.toList

/-- The hexadecimal digit of a number below sixteen. -/
def hexDigit (n : UInt8) : UInt8 := if n < 10 then 48 + n else 87 + n

/-- A byte inside a string. -/
def escape (b : UInt8) : List UInt8 :=
  if b = 34 ∨ b = 92 then [92, b]
  else if b = 8 then utf8 "\\b"
  else if b = 9 then utf8 "\\t"
  else if b = 10 then utf8 "\\n"
  else if b = 12 then utf8 "\\f"
  else if b = 13 then utf8 "\\r"
  else if b < 32 then utf8 "\\u00" ++ [hexDigit (b / 16), hexDigit (b % 16)]
  else [b]

def quote (s : String) : List UInt8 := utf8 "\"" ++ (utf8 s).flatMap escape ++ utf8 "\""

mutual

/-- `serde_json::to_writer`: the bytes of a value, with no space in them. -/
def bytes : Json → List UInt8
  | .null => utf8 "null"
  | .bool value => utf8 (toString value)
  | .number value => utf8 (toString value)
  | .string value => quote value
  | .array values => utf8 "[" ++ (utf8 ",").intercalate (bytesAll values) ++ utf8 "]"
  | .object names values => let entry name value := quote name ++ utf8 ":" ++ value
    utf8 "\x7b" ++ (utf8 ",").intercalate (List.zipWith entry names (bytesAll values)) ++ utf8 "\x7d"

def bytesAll : List Json → List (List UInt8)
  | [] => []
  | value :: values => bytes value :: bytesAll values

end

end Json
