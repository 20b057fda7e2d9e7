import Stencil.Error
import Stencil.Expression

/-!
# Filters

A filter is a function from a value and arguments to a value. When a template is compiled the filter
calls of an expression are bound to filters, and bound expressions have a value in every scope
unless a filter fails.
-/

namespace Stencil

/-- A named transform: from a value and arguments to a value. -/
structure Filter where
  apply : Value → List Value → Except Error Value

/-- A filter that a call was bound to, with the arguments of the call. -/
structure BoundFilter where
  name : String
  filter : Filter
  arguments : List Expr

/-- Bound filters in the order in which they are applied. -/
abbrev FilterChain := List BoundFilter

/-- An expression whose filter calls are bound. -/
structure BoundExpression where
  base : Expr
  filters : FilterChain

namespace FilterChain

/-- The filters whose output is not escaped again. -/
def safeNames : List String := ["safe", "raw", "escape", "e"]

/-- Whether some filter of a chain marks its output as safe. -/
def isSafe (chain : FilterChain) : Bool := chain.any fun b => safeNames.contains b.name

/-- Feed a value through a chain. The arguments are evaluated in the scope. -/
def apply (scope : Scope) : FilterChain → Value → Except Error Value
  | [], value => .ok value
  | bound :: rest, value =>
    match bound.filter.apply value (bound.arguments.map (Expr.evaluate scope)) with
    | .ok next => apply scope rest next
    | .error e => .error e

/-- A chain in two parts is the second one after the first. -/
theorem apply_append (scope : Scope) (first second : FilterChain) (value : Value) :
    apply scope (first ++ second) value = (apply scope first value).bind (apply scope second) := by
  induction first generalizing value with
  | nil => rfl
  | cons bound rest ih =>
    simp only [List.cons_append, apply]
    split
    · exact ih _
    · rfl

end FilterChain

namespace BoundExpression

/-- The value of an expression in a scope. -/
def evaluate (scope : Scope) (e : BoundExpression) : Except Error Value :=
  FilterChain.apply scope e.filters (e.base.evaluate scope)

/-- Whether the output of an expression is not escaped again. -/
def isSafe (e : BoundExpression) : Bool := FilterChain.isSafe e.filters

end BoundExpression

end Stencil
