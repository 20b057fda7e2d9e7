import Stencil.Expression.Parse
import Stencil.Filter

/-!
# Binding filter calls

While a template is compiled the names of filters are looked up once. A name that is not there is an
error at the place of the marker, and so is a text that is no expression.
-/

namespace Stencil

/-- Where filters are looked up. -/
abbrev FindFilter := String → Option Filter

/-- Bind some calls, in order. -/
def FilterChain.bind (find : FindFilter) (place : Place) :
    List FilterCall → Except Error FilterChain
  | [] => .ok []
  | call :: rest =>
    match find call.name with
    | none => .error (.unknownFilter call.name place)
    | some filter => (bind find place rest).map (⟨call.name, filter, call.arguments⟩ :: ·)

/-- Bind the filter chain that is written in a text. -/
def FilterChain.ofText (find : FindFilter) (place : Place) (text : String) :
    Except Error FilterChain :=
  match Expression.parseChain text with
  | .ok calls => bind find place calls
  | .error fault => .error (fault.error place)

namespace BoundExpression

/-- Bind the calls of an expression. -/
def bind (find : FindFilter) (place : Place) (e : Expression) : Except Error BoundExpression :=
  (FilterChain.bind find place e.filters).map fun filters => ⟨e.base, filters⟩

/-- Bind the expression that is written in a text. -/
def ofText (find : FindFilter) (place : Place) (text : String) : Except Error BoundExpression :=
  match Expression.parse text with
  | .ok e => bind find place e
  | .error fault => .error (fault.error place)

/-- Bind the expressions that are written in some texts, in order. -/
def ofTexts (find : FindFilter) (place : Place) :
    List String → Except Error (List BoundExpression)
  | [] => .ok []
  | text :: rest =>
    match ofText find place text with
    | .ok e => (ofTexts find place rest).map (e :: ·)
    | .error e => .error e

end BoundExpression

end Stencil
