/-!
# Number literals

The text of a number: an optional minus sign, digits, an optional fraction and an optional
exponent. Reading takes the longest literal at the front of a text and keeps its parts as written.
-/

namespace Stencil.Decimal

/-- The parts of a number literal, as written. -/
structure Literal where
  negative : Bool
  /-- The digits before the point. -/
  whole : List Char
  /-- The digits after the point; none if there is no point. -/
  fraction : List Char
  /-- The exponent with its letter and sign; empty if there is none. -/
  power : List Char
deriving DecidableEq, Repr

/-- The number that some decimal digits denote. -/
def ofDigits (digits : List Char) : Nat :=
  digits.foldl (fun n c => 10 * n + (c.toNat - 48)) 0

/-- A fraction with its point; nothing if there are no digits. -/
def pointed : List Char → List Char
  | [] => []
  | digits => '.' :: digits

/-- A minus sign or nothing. -/
def signText : Bool → List Char
  | true => ['-']
  | false => []

namespace Literal

/-- The text of a literal. -/
def text (l : Literal) : List Char :=
  signText l.negative ++ (l.whole ++ (pointed l.fraction ++ l.power))

/-- Whether a literal has neither a fraction nor an exponent. -/
def isInteger (l : Literal) : Bool := l.fraction.isEmpty && l.power.isEmpty

/-- The integer before the point, with its sign. -/
def integer (l : Literal) : Int :=
  if l.negative then -(ofDigits l.whole : Int) else ofDigits l.whole

/-- The exponent that some text, a letter, a sign and digits, denotes. -/
def exponentOf : List Char → Int
  | _ :: '-' :: digits => -(ofDigits digits : Int)
  | _ :: '+' :: digits => ofDigits digits
  | _ :: digits => ofDigits digits
  | [] => 0

/-- All digits of a literal, as one number. -/
def digits (l : Literal) : Nat := ofDigits (l.whole ++ l.fraction)

/-- The power of ten by which `digits` is scaled. -/
def exponent (l : Literal) : Int := exponentOf l.power - l.fraction.length

end Literal

/-- The fraction at the front of a text, if a digit follows the point, and the rest. -/
def takeFraction : List Char → List Char × List Char
  | '.' :: c :: rest =>
    if c.isDigit then (c :: rest.takeWhile Char.isDigit, rest.dropWhile Char.isDigit)
    else ([], '.' :: c :: rest)
  | cs => ([], cs)

/-- The exponent at the front of a text, if it is complete, and the rest. -/
def takePower (cs : List Char) : List Char × List Char :=
  match cs with
  | e :: sign :: c :: rest =>
    if (e = 'e' ∨ e = 'E') ∧ (sign = '+' ∨ sign = '-') ∧ c.isDigit then
      (e :: sign :: c :: rest.takeWhile Char.isDigit, rest.dropWhile Char.isDigit)
    else if (e = 'e' ∨ e = 'E') ∧ sign.isDigit then
      (e :: sign :: (c :: rest).takeWhile Char.isDigit, (c :: rest).dropWhile Char.isDigit)
    else ([], cs)
  | [e, c] => if (e = 'e' ∨ e = 'E') ∧ c.isDigit then ([e, c], []) else ([], cs)
  | _ => ([], cs)

/-- The longest literal at the front of a text that starts with a digit, and the rest. -/
def takeUnsigned (negative : Bool) (cs : List Char) : Literal × List Char :=
  let (fraction, afterFraction) := takeFraction (cs.dropWhile Char.isDigit)
  let (power, rest) := takePower afterFraction
  (⟨negative, cs.takeWhile Char.isDigit, fraction, power⟩, rest)

/-- The longest literal at the front of a text, and the rest. -/
def takeLiteral? : List Char → Option (Literal × List Char)
  | '-' :: c :: rest => if c.isDigit then some (takeUnsigned true (c :: rest)) else none
  | c :: rest => if c.isDigit then some (takeUnsigned false (c :: rest)) else none
  | [] => none

/-- A fraction and the rest make up the text, up to the point. -/
theorem takeFraction_append (cs : List Char) :
    pointed (takeFraction cs).1 ++ (takeFraction cs).2 = cs := by
  unfold takeFraction
  split
  · split
    · simp [pointed, List.takeWhile_append_dropWhile]
    · simp [pointed]
  · simp [pointed]

/-- An exponent and the rest make up the text. -/
theorem takePower_append (cs : List Char) : (takePower cs).1 ++ (takePower cs).2 = cs := by
  unfold takePower
  split
  · split
    · simp [List.takeWhile_append_dropWhile]
    · split <;> simp [List.takeWhile_append_dropWhile]
  · split <;> simp
  · simp

/-- The literal that begins with some digits, and the rest, make up the text. -/
theorem takeUnsigned_append (negative : Bool) (cs : List Char) :
    (takeUnsigned negative cs).1.text ++ (takeUnsigned negative cs).2 =
      signText negative ++ cs := by
  have hf := takeFraction_append (cs.dropWhile Char.isDigit)
  have hp := takePower_append (takeFraction (cs.dropWhile Char.isDigit)).2
  simp only [takeUnsigned, Literal.text, List.append_assoc]
  rw [hp, hf, List.takeWhile_append_dropWhile]

/-- A literal is the beginning of the text it was taken from. -/
theorem text_append_of_takeLiteral? {cs rest : List Char} {l : Literal}
    (h : takeLiteral? cs = some (l, rest)) : l.text ++ rest = cs := by
  unfold takeLiteral? at h
  split at h
  · split at h
    · rename_i c tail _
      have key := takeUnsigned_append true (c :: tail)
      rw [Option.some.inj h] at key
      simpa [signText] using key
    · simp at h
  · split at h
    · rename_i c tail _ _
      have key := takeUnsigned_append false (c :: tail)
      rw [Option.some.inj h] at key
      simpa [signText] using key
    · simp at h
  · simp at h

end Stencil.Decimal
