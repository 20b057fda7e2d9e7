import Stencil.Decimal.Binary64

/-!
# The shortest decimal of a double

Among the decimals that read back as a given double, the ones with the fewest digits, and of those
the nearest one. A decimal reads back as the double when it lies in the interval of numbers that
round to it; the ends belong to the interval when the mantissa is even.
-/

namespace Stencil.Decimal

/-- Which decimal is chosen when two equally short ones are equally near. -/
inductive Tie where
  | toEven
  | up
deriving DecidableEq, Repr

/-- The number `digits * 10 ^ exponent`. -/
structure Scaled where
  digits : Nat
  exponent : Int
deriving DecidableEq, Repr

/-- The numbers that round to a magnitude, in units of a quarter step over `den`: the magnitude is
`mid / den`, and the interval reaches from `low / den` to `high / den`. -/
structure Interval where
  low : Nat
  mid : Nat
  high : Nat
  den : Nat
  closed : Bool
deriving DecidableEq, Repr

/-- The interval of a magnitude. Below a power of two the steps are half as wide. -/
def Interval.ofMagnitude (m : Magnitude) : Interval :=
  let below := if m.mantissa = hiddenBit ∧ 0 < m.exponent then 1 else 2
  let num := if 1076 ≤ m.exponent then Nat.pow 2 (m.exponent - 1076) else 1
  let den := if 1076 ≤ m.exponent then 1 else Nat.pow 2 (1076 - m.exponent)
  { low := (4 * m.mantissa - below) * num
    mid := 4 * m.mantissa * num
    high := (4 * m.mantissa + 2) * num
    den := den
    closed := m.mantissa % 2 = 0 }

/-- Whether `num / (den * factor)` lies in the interval. -/
def Interval.holds (i : Interval) (num factor : Nat) : Bool :=
  if i.closed then i.low * factor ≤ num && num ≤ i.high * factor
  else i.low * factor < num && num < i.high * factor

/-- The number of decimal digits of a number, at least one. -/
def countDigits (n : Nat) : Nat := (Nat.toDigits 10 n).length

/-- The greatest power of ten, as an exponent, that is not above `num / den`; for a fraction below
one that is an exact power of ten it is one less. -/
def leadingExponent (num den : Nat) : Int :=
  if den ≤ num then (countDigits (num / den) : Int) - 1
  else -(countDigits (den / num) : Int)

/-- The decimals `d * 10 ^ exponent` in the interval next to the magnitude, the better one. -/
def pickOnGrid (tie : Tie) (i : Interval) (exponent : Int) : Option Nat :=
  -- `d * 10 ^ exponent` is `d * scale / factor`
  let scale := if 0 ≤ exponent then Nat.pow 10 exponent.toNat else 1
  let factor := if 0 ≤ exponent then 1 else Nat.pow 10 (-exponent).toNat
  let unit := i.den * scale
  let below := i.mid * factor / unit
  let offset := i.mid * factor % unit
  let lowHit := i.holds (below * unit) factor
  let highHit := i.holds ((below + 1) * unit) factor
  match lowHit, highHit with
  | false, false => none
  | true, false => some below
  | false, true => some (below + 1)
  | true, true =>
    if 2 * offset < unit then some below
    else if unit < 2 * offset then some (below + 1)
    else match tie with
      | .up => some (below + 1)
      | .toEven => some (if below % 2 = 0 then below else below + 1)

/-- Drop zeros at the end of the digits, as far as `fuel` allows. -/
def dropZeros : Nat → Scaled → Scaled
  | 0, s => s
  | fuel + 1, s =>
    if s.digits ≠ 0 ∧ s.digits % 10 = 0 then dropZeros fuel ⟨s.digits / 10, s.exponent + 1⟩ else s

/-- Try grids of one digit, two digits and so on, up to seventeen, which always suffice. -/
def searchGrids (tie : Tie) (i : Interval) (leading : Int) : Nat → Nat → Scaled
  | places, 0 => ⟨i.mid / i.den, places⟩
  | places, fuel + 1 =>
    let exponent := leading - places
    match pickOnGrid tie i exponent with
    | some digits => ⟨digits, exponent⟩
    | none => searchGrids tie i leading (places + 1) fuel

/-- The shortest decimal of a magnitude. -/
def shortest (tie : Tie) (m : Magnitude) : Scaled :=
  if m.mantissa = 0 then ⟨0, 0⟩
  else
    let i := Interval.ofMagnitude m
    dropZeros 20 (searchGrids tie i (leadingExponent i.mid i.den) 0 20)

end Stencil.Decimal
