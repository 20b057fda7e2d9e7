import Stencil.Value.Json

/-!
# Output text of values

What a value looks like in the output of a template: null is empty, a text is itself, a list is its
items with commas between them, and an object is its JSON text.
-/

namespace Stencil.Value

mutual

/-- The output text of a value. -/
def display : Value → String
  | .null => ""
  | .bool true => "true"
  | .bool false => "false"
  | .number n => n.display
  | .string s => s
  | .array items => String.intercalate "," (displayItems items)
  | .object fields => json (.object fields)

/-- The output texts of some items. -/
def displayItems : List Value → List String
  | [] => []
  | v :: rest => display v :: displayItems rest

end

theorem displayItems_eq_map (items : List Value) : displayItems items = items.map display := by
  induction items with
  | nil => rfl
  | cons v rest ih => simp [displayItems, ih]

/-- Apply a function to the strings inside a value, taking truth values and numbers as their
output texts. -/
def mapText (f : String → String) (v : Value) : Value := v.mapStrings display f

end Stencil.Value
