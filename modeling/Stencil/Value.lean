import Stencil.Fields
import Stencil.Number

/-!
# Values

The data that templates are rendered with and that expressions, filters and handlers compute.
-/

namespace Stencil

/-- A piece of data: nothing, a truth value, a number, a text, a list or an object. -/
inductive Value where
  | null
  | bool (b : Bool)
  | number (n : Number)
  | string (s : String)
  | array (items : List Value)
  | object (fields : List (String × Value))

instance : Inhabited Value := ⟨.null⟩

/-- The names that a template can refer to, with their values. -/
abbrev Scope := Fields Value

namespace Value

/-- A count as a value. -/
def count (n : Nat) : Value := .number (.ofCount n)

/-- Whether a value counts as missing: it is null or false. -/
def isAbsent : Value → Bool
  | .null => true
  | .bool false => true
  | _ => false

mutual

/-- Equality of values; numbers compare as `Number.same` says. -/
def same : Value → Value → Bool
  | .null, .null => true
  | .bool a, .bool b => a == b
  | .number a, .number b => a.same b
  | .string a, .string b => a == b
  | .array a, .array b => sameItems a b
  | .object a, .object b => sameFields a b
  | _, _ => false

/-- Equality of lists, item by item. -/
def sameItems : List Value → List Value → Bool
  | [], [] => true
  | a :: as, b :: bs => same a b && sameItems as bs
  | _, _ => false

/-- Equality of objects, field by field. -/
def sameFields : List (String × Value) → List (String × Value) → Bool
  | [], [] => true
  | (k, a) :: as, (l, b) :: bs => k == l && same a b && sameFields as bs
  | _, _ => false

end

mutual

/-- Apply a function to the strings inside a value. Null stays null, and a truth value or number
becomes the image of the text that `text` gives for it. -/
def mapStrings (text : Value → String) (f : String → String) : Value → Value
  | .null => .null
  | .string s => .string (f s)
  | .array items => .array (mapItems text f items)
  | .object fields => .object (mapFields text f fields)
  | .bool b => .string (f (text (.bool b)))
  | .number n => .string (f (text (.number n)))

/-- Apply a function to the strings inside every item. -/
def mapItems (text : Value → String) (f : String → String) : List Value → List Value
  | [] => []
  | v :: rest => mapStrings text f v :: mapItems text f rest

/-- Apply a function to the strings inside every field; the names stay. -/
def mapFields (text : Value → String) (f : String → String) :
    List (String × Value) → List (String × Value)
  | [] => []
  | (k, v) :: rest => (k, mapStrings text f v) :: mapFields text f rest

end

theorem mapItems_eq_map (text : Value → String) (f : String → String) (items : List Value) :
    mapItems text f items = items.map (mapStrings text f) := by
  induction items with
  | nil => rfl
  | cons v rest ih => simp [mapItems, ih]

theorem mapFields_eq_map (text : Value → String) (f : String → String)
    (fields : List (String × Value)) :
    mapFields text f fields = fields.map fun e => (e.1, mapStrings text f e.2) := by
  induction fields with
  | nil => rfl
  | cons e rest ih => simp [mapFields, ih]

end Value

end Stencil
