import Stencil.Decimal.Literal
import Stencil.Decimal.Notation

/-!
# Numbers

A number is an exact integer that fits in 64 bits, signed or unsigned, or a finite double. The two
kinds stay apart: `1` and `1.0` are different numbers.
-/

namespace Stencil

/-- The least integer a number can be: the least signed 64-bit word. -/
def minInteger : Int := -9223372036854775808

/-- The greatest signed 64-bit word. -/
def maxSigned : Int := 9223372036854775807

/-- The greatest integer a number can be: the greatest unsigned 64-bit word. -/
def maxInteger : Int := 18446744073709551615

/-- An integer in the range of 64-bit words, or a finite double. -/
inductive Number where
  | integer (value : Int) (inRange : minInteger ≤ value ∧ value ≤ maxInteger)
  | double (value : Float) (finite : value.isFinite = true)

namespace Number

/-- The number for an integer in range. -/
def ofInt? (n : Int) : Option Number :=
  if h : minInteger ≤ n ∧ n ≤ maxInteger then some (.integer n h) else none

/-- The number for a finite double. -/
def ofFloat? (x : Float) : Option Number :=
  if h : x.isFinite = true then some (.double x h) else none

/-- The number for a count; counts past the greatest integer do not occur and stop there. -/
def ofCount (n : Nat) : Number :=
  .integer (min n maxInteger) (by simp only [minInteger, maxInteger]; omega)

/-- The nearest double. -/
def toFloat : Number → Float
  | .integer n _ => Decimal.ofInt n
  | .double x _ => x

/-- Equality of numbers: integers by value, doubles as IEEE does it, never one with the other. -/
def same : Number → Number → Bool
  | .integer a _, .integer b _ => a == b
  | .double a _, .double b _ => a == b
  | _, _ => false

/-- Whether an integer fits in a signed 64-bit word. -/
def isSigned (n : Int) : Bool := minInteger ≤ n && n ≤ maxSigned

/-- The sum of two numbers: exact if both operands and the sum are signed 64-bit integers, else the
sum of the nearest doubles, which is no number if it is infinite. -/
def add : Number → Number → Option Number
  | .integer a ha, .integer b hb =>
    if isSigned a && isSigned b && isSigned (a + b) then ofInt? (a + b)
    else ofFloat? ((Number.integer a ha).toFloat + (Number.integer b hb).toFloat)
  | a, b => ofFloat? (a.toFloat + b.toFloat)

/-- The text of a number in JSON. -/
def json : Number → String
  | .integer n _ => toString n
  | .double x _ => Decimal.Format.json.write x

/-- The whole doubles below this bound are displayed as integers. -/
def displayBound : Nat := 1000000000000000

/-- A double for display: one that is whole and below the bound as an integer, which has no sign for
zero, and any other positionally. -/
def displayDouble (x : Float) : String :=
  match (Decimal.Magnitude.ofFloat x).toNat? with
  | some n =>
    if n < displayBound then toString (if Decimal.isNegative x then -(n : Int) else n)
    else Decimal.Format.display.write x
  | none => Decimal.Format.display.write x

/-- The text of a number in the output of a template. -/
def display : Number → String
  | .integer n _ => toString n
  | .double x _ => displayDouble x

/-- The position in a list that a number names: a non-negative integer. -/
def index? : Number → Option Nat
  | .integer n _ => n.toNat?
  | .double _ _ => none

/-- The double nearest to a literal. -/
def doubleOfLiteral? (l : Decimal.Literal) : Option Number :=
  ofFloat? (Decimal.toFloat l.negative l.digits l.exponent)

/-- The number that a literal denotes, where a whole literal is an integer if `fits` holds of it
and every other literal is the nearest double, which must be finite. -/
def ofLiteral? (fits : Int → Bool) (l : Decimal.Literal) : Option Number :=
  if l.isInteger && fits l.integer then ofInt? l.integer else doubleOfLiteral? l

end Number

end Stencil
