import Stencil.Value

/-!
# Extensions

Functions that a host program supplies for the fragments of raw tags. An extension may answer each
call differently; so that rendering stays a function, the answer depends on the number of earlier
calls, which rendering keeps count of.
-/

namespace Stencil

/-- A named function for fragments: from the number of earlier calls and arguments to a value. -/
structure Extension where
  answer : Nat → List Value → Value

/-- One registration of an extension: the registry it was made in and its name. -/
structure Registration where
  registry : Nat
  name : String
deriving DecidableEq, Repr

/-- An extension found in a registry. -/
structure BoundExtension where
  registration : Registration
  extension : Extension

/-- How often every registered extension was called: counts after each call, newest first. -/
abbrev CallLog := List (Registration × Nat)

namespace CallLog

/-- The number of calls of an extension. -/
def count (log : CallLog) (r : Registration) : Nat := (log.lookup r).getD 0

/-- One more call of an extension. -/
def record (log : CallLog) (r : Registration) : CallLog := (r, log.count r + 1) :: log

/-- A recorded call counts for its extension and for no other. -/
theorem count_record (log : CallLog) (r s : Registration) :
    (log.record r).count s = if s = r then log.count r + 1 else log.count s := by
  by_cases h : s = r
  · subst h
    simp [record, count]
  · have hb : (s == r) = false := by simpa using h
    simp [record, count, List.lookup_cons, hb, h]

end CallLog

end Stencil
