import Stencil.Value.Json

/-!
# Expressions

What stands in an output marker: a base that produces a value, and a chain of filter calls. The
value of a base depends on the scope alone, and nothing that is missing is an error: it is null.
-/

namespace Stencil

/-- An expression without filters. -/
inductive Expr where
  /-- A value written in the template. -/
  | literal (value : Value)
  /-- A name of the scope. -/
  | named (name : String)
  /-- `base.name` -/
  | member (base : Expr) (name : String)
  /-- `base[key]` -/
  | index (base key : Expr)

instance : Inhabited Expr := ⟨.literal .null⟩

/-- A filter call, `name(arguments)`. -/
structure FilterCall where
  name : String
  arguments : List Expr

/-- A base with the filters applied to it, in order. -/
structure Expression where
  base : Expr
  filters : List FilterCall

/-- The value of an expression that is nothing but a literal. -/
def Expression.literal? (e : Expression) : Option Value :=
  match e.base, e.filters with
  | .literal value, [] => some value
  | _, _ => none

namespace Value

/-- The position that a text names: digits, with an optional plus sign. -/
def indexOfText? (text : String) : Option Nat :=
  let digits := match text.toList with
    | '+' :: rest => rest
    | cs => cs
  if digits ≠ [] ∧ digits.all Char.isDigit then some (Decimal.ofDigits digits) else none

/-- What an object holds under a key, or a list at a position; null if there is nothing. -/
def lookUp (base key : Value) : Value :=
  let found := match base, key with
    | .object fields, .string name => Fields.find? name fields
    | .object fields, .number n => Fields.find? n.json fields
    | .array items, .number n => n.index?.bind (items[·]?)
    | .array items, .string text => (indexOfText? text).bind (items[·]?)
    | _, _ => none
  found.getD .null

end Value

namespace Expr

/-- The value of an expression in a scope. -/
def evaluate (scope : Scope) : Expr → Value
  | .literal value => value
  | .named name => (Fields.find? name scope).getD .null
  | .member base name => (base.evaluate scope).lookUp (.string name)
  | .index base key => (base.evaluate scope).lookUp (key.evaluate scope)

/-- The names of the scope that an expression refers to. -/
def names : Expr → List String
  | .literal _ => []
  | .named name => [name]
  | .member base _ => base.names
  | .index base key => base.names ++ key.names

/-- Two scopes that agree on the names an expression refers to give it the same value. -/
theorem evaluate_congr {s t : Scope} {e : Expr}
    (h : ∀ name ∈ e.names, Fields.find? name s = Fields.find? name t) :
    e.evaluate s = e.evaluate t := by
  induction e with
  | literal value => rfl
  | named name => simp [evaluate, h name (by simp [names])]
  | member base name ih => simp [evaluate, ih h]
  | index base key ihb ihk =>
    simp only [names, List.mem_append] at h
    simp [evaluate, ihb fun n hn => h n (.inl hn), ihk fun n hn => h n (.inr hn)]

end Expr

end Stencil
