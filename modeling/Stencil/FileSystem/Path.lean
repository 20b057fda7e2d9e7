/-!
# Paths

A path is kept as it was written. Two paths are the same when they have the same parts: doubled and
final slashes and inner dots do not count, but a leading dot and every pair of dots do.
-/

namespace Stencil

/-- A path as it was written. -/
structure Path where
  text : String
deriving DecidableEq, Repr

namespace Path

/-- A part of a path. -/
inductive Part where
  /-- The root directory, in front of an absolute path. -/
  | root
  /-- A dot in front of a relative path. -/
  | here
  /-- Two dots. -/
  | up
  | name (s : String)
deriving DecidableEq, Repr

/-- The texts between slashes. -/
def segmentsOf (cs : List Char) : List (List Char) := cs.splitOn '/'

/-- The texts between the slashes of a path. -/
def segments (p : Path) : List String := (segmentsOf p.text.toList).map String.ofList

/-- Whether a path starts at the root directory. -/
def isAbsolute (p : Path) : Bool := p.text.toList.head? == some '/'

/-- The part that a segment after the first one is; dots and empty segments are none. -/
def partOf? (segment : String) : Option Part :=
  if segment = "" ∨ segment = "." then none
  else if segment = ".." then some .up
  else some (.name segment)

/-- The parts of a path. -/
def parts (p : Path) : List Part :=
  let inner := p.segments.filterMap partOf?
  if p.isAbsolute then .root :: inner
  else if p.segments.head? = some "." then .here :: inner
  else inner

/-- Whether two paths have the same parts. -/
def same (p q : Path) : Bool := p.parts == q.parts

/-- A path seen from another one: an absolute path stands for itself. -/
def join (base p : Path) : Path :=
  if p.isAbsolute then p
  else
    let cs := base.text.toList
    if cs = [] ∨ cs.getLast? = some '/' then ⟨base.text ++ p.text⟩
    else ⟨base.text ++ "/" ++ p.text⟩

/-- Having the same parts is reflexive. -/
@[simp] theorem same_self (p : Path) : p.same p = true := by simp [same]

/-- Paths are the same exactly when their parts are. -/
theorem same_iff {p q : Path} : p.same q = true ↔ p.parts = q.parts := by simp [same]

/-- An absolute path replaces the base. -/
theorem join_of_isAbsolute {base p : Path} (h : p.isAbsolute) : base.join p = p := by
  simp [join, h]

end Path

end Stencil
