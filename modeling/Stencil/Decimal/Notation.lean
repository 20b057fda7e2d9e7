import Stencil.Decimal.Shortest

/-!
# Writing decimals

Positional notation (`0.001`, `1200.0`) and scientific notation (`1.25e+20`) of a decimal, and the
two formats in which doubles are written: the JSON form, which always looks like a number with a
fraction, and the display form, which never uses an exponent.
-/

namespace Stencil.Decimal

/-- The decimal digits of a number. -/
def digitChars (n : Nat) : List Char := Nat.toDigits 10 n

/-- `count` zeros. -/
def zeros (count : Nat) : List Char := List.replicate count '0'

/-- Positional notation; `wholeMark` is written after a whole number. -/
def positional (wholeMark : List Char) (s : Scaled) : List Char :=
  let digits := digitChars s.digits
  let point := s.exponent + digits.length
  if 0 ≤ s.exponent then digits ++ zeros s.exponent.toNat ++ wholeMark
  else if 0 < point then digits.take point.toNat ++ '.' :: digits.drop point.toNat
  else '0' :: '.' :: zeros (-point).toNat ++ digits

/-- The exponent of the first digit. -/
def scientificExponent (s : Scaled) : Int := s.exponent + (digitChars s.digits).length - 1

/-- Scientific notation: one digit, a fraction if there are more, and a signed exponent. -/
def scientific (s : Scaled) : List Char :=
  let exponent := scientificExponent s
  let sign := if exponent < 0 then '-' else '+'
  let power := 'e' :: sign :: digitChars exponent.natAbs
  match digitChars s.digits with
  | first :: second :: rest => first :: '.' :: second :: rest ++ power
  | digits => digits ++ power

/-- How a double is written. -/
structure Format where
  /-- The choice between two decimals that are equally short and near. -/
  tie : Tie
  /-- The exponents of a first digit that are written positionally. -/
  isPositional : Int → Bool
  /-- What follows a whole number in positional notation. -/
  wholeMark : List Char

/-- In JSON a whole double ends in `.0`, and numbers below `0.00001` or from `1e+16` on have an
exponent. -/
def Format.json : Format := ⟨.toEven, fun e => -5 ≤ e && e ≤ 15, ['.', '0']⟩

/-- For display every double is written positionally, and a whole one without a fraction. -/
def Format.display : Format := ⟨.up, fun _ => true, []⟩

/-- A finite double in a format. -/
def Format.write (format : Format) (x : Float) : String :=
  let s := shortest format.tie (Magnitude.ofFloat x)
  let body :=
    if format.isPositional (scientificExponent s) then positional format.wholeMark s
    else scientific s
  String.ofList (if isNegative x then '-' :: body else body)

end Stencil.Decimal
