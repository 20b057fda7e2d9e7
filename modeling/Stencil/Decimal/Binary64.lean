/-!
# Doubles as exact fractions

A finite double is a whole number of steps, each a power of two. This module takes a double apart
into that form, and finds the double nearest to a fraction, a tie going to the even neighbour.
-/

namespace Stencil.Decimal

/-- The bit of a mantissa that is not stored, `2 ^ 52`; it is also the weight of the exponent among
the bits of a double. -/
def hiddenBit : Nat := Nat.pow 2 52

/-- The sign bit of a double. -/
def signBit : Nat := Nat.pow 2 63

/-- The bits of infinity. -/
def infinityBits : Nat := 2047 * hiddenBit

/-- A finite double without its sign: `mantissa * 2 ^ (exponent - 1074)`, where the mantissa is
below `2 ^ 53` and, unless the exponent is zero, not below `2 ^ 52`. -/
structure Magnitude where
  mantissa : Nat
  exponent : Nat
deriving DecidableEq, Repr

namespace Magnitude

/-- The magnitude with the given bits of a double, read without the sign bit. -/
def ofBits (bits : Nat) : Magnitude :=
  let fraction := bits % hiddenBit
  let biased := bits / hiddenBit % 2048
  if biased = 0 then ⟨fraction, 0⟩ else ⟨fraction + hiddenBit, biased - 1⟩

/-- The magnitude of a double. -/
def ofFloat (x : Float) : Magnitude := ofBits x.toBits.toNat

/-- The magnitude as a fraction: numerator and denominator. -/
def fraction (m : Magnitude) : Nat × Nat :=
  if 1074 ≤ m.exponent then (m.mantissa * Nat.pow 2 (m.exponent - 1074), 1)
  else (m.mantissa, Nat.pow 2 (1074 - m.exponent))

/-- The whole number a magnitude is, if it is one. -/
def toNat? (m : Magnitude) : Option Nat :=
  let (num, den) := m.fraction
  if num % den = 0 then some (num / den) else none

end Magnitude

/-- Whether a double carries a minus sign. -/
def isNegative (x : Float) : Bool := signBit ≤ x.toBits.toNat

/-- The whole number nearest to `num / den`, a tie going to the even one. -/
def roundHalfEven (num den : Nat) : Nat :=
  let quotient := num / den
  let twice := 2 * (num % den)
  if twice < den ∨ (twice = den ∧ quotient % 2 = 0) then quotient else quotient + 1

/-- The exponent of the step between the doubles around `num / den`, counted from the smallest
step: the quotient by that step is below `2 ^ 53`. -/
def stepExponent (num den : Nat) : Nat :=
  let estimate : Int := (num.log2 : Int) - den.log2 - 52
  let exact : Bool :=
    if 0 ≤ estimate + 52 then den * Nat.pow 2 (estimate + 52).toNat ≤ num
    else den ≤ num * Nat.pow 2 (-(estimate + 52)).toNat
  ((if exact then estimate else estimate - 1) + 1074).toNat

/-- The bits of the double nearest to `num / den`. A quotient past the largest double gives the
bits of infinity. -/
def nearestBits (num den : Nat) : Nat :=
  if num = 0 then 0
  else
    let exponent := stepExponent num den
    let steps :=
      if 1074 ≤ exponent then roundHalfEven num (den * Nat.pow 2 (exponent - 1074))
      else roundHalfEven (num * Nat.pow 2 (1074 - exponent)) den
    Nat.min (exponent * hiddenBit + steps) infinityBits

/-- The bits of the double nearest to `digits * 10 ^ exponent`. Exponents that lie far outside the
range of doubles are answered at once. -/
def nearestBitsScaled (digits : Nat) (exponent : Int) : Nat :=
  if digits = 0 ∨ exponent < -(400 + (digits.log2 : Int)) then 0
  else if 400 < exponent then infinityBits
  else if 0 ≤ exponent then nearestBits (digits * Nat.pow 10 exponent.toNat) 1
  else nearestBits digits (Nat.pow 10 (-exponent).toNat)

/-- The double nearest to `digits * 10 ^ exponent`, with a sign; past the largest double it is
infinite. -/
def toFloat (negative : Bool) (digits : Nat) (exponent : Int) : Float :=
  let sign := if negative then signBit else 0
  Float.ofBits (UInt64.ofNat (nearestBitsScaled digits exponent + sign))

/-- The double nearest to a whole number. -/
def ofInt (n : Int) : Float := toFloat (n < 0) n.natAbs 0

end Stencil.Decimal
