import Stencil.Text.Hex
import Stencil.Value

/-!
# Compact JSON

The JSON text of a value, with no spaces and with the fields of an object in their order. Only the
quote, the backslash and the control characters of ASCII are escaped.
-/

namespace Stencil.Value

/-- How a character is written inside a JSON string. -/
def jsonChar (c : Char) : List Char :=
  match c with
  | '"' => ['\\', '"']
  | '\\' => ['\\', '\\']
  | '\x08' => ['\\', 'b']
  | '\t' => ['\\', 't']
  | '\n' => ['\\', 'n']
  | '\x0c' => ['\\', 'f']
  | '\r' => ['\\', 'r']
  | c =>
    if c.toNat < 0x20 then
      ['\\', 'u', '0', '0', Text.hexDigit (c.toNat / 16), Text.hexDigit (c.toNat % 16)]
    else [c]

/-- A JSON string. -/
def jsonString (s : String) : String :=
  "\"" ++ String.ofList (s.toList.flatMap jsonChar) ++ "\""

mutual

/-- The compact JSON text of a value. -/
def json : Value → String
  | .null => "null"
  | .bool true => "true"
  | .bool false => "false"
  | .number n => n.json
  | .string s => jsonString s
  | .array items => "[" ++ String.intercalate "," (jsonItems items) ++ "]"
  | .object fields => "\x7b" ++ String.intercalate "," (jsonFields fields) ++ "\x7d"

/-- The JSON texts of some items. -/
def jsonItems : List Value → List String
  | [] => []
  | v :: rest => json v :: jsonItems rest

/-- The JSON texts of some fields. -/
def jsonFields : List (String × Value) → List String
  | [] => []
  | (k, v) :: rest => (jsonString k ++ ":" ++ json v) :: jsonFields rest

end

theorem jsonItems_eq_map (items : List Value) : jsonItems items = items.map json := by
  induction items with
  | nil => rfl
  | cons v rest ih => simp [jsonItems, ih]

theorem jsonFields_eq_map (fields : List (String × Value)) :
    jsonFields fields = fields.map fun e => jsonString e.1 ++ ":" ++ json e.2 := by
  induction fields with
  | nil => rfl
  | cons e rest ih => simp [jsonFields, ih]

end Stencil.Value
