/-!
# Points, spans and places

Where something stands in template text: a line and a column counted in characters from one, and
an offset counted in bytes of UTF-8 from zero. Messages give the line and the column only.
-/

namespace Stencil

/-- One location in a text. -/
structure Point where
  line : Nat
  column : Nat
  offset : Nat
deriving DecidableEq, Repr

namespace Point

/-- The beginning of a text. -/
def origin : Point := ⟨1, 1, 0⟩

/-- The location after one more character; a line feed begins a new line. -/
def step (p : Point) (c : Char) : Point :=
  if c = '\n' then ⟨p.line + 1, 1, p.offset + c.utf8Size⟩
  else ⟨p.line, p.column + 1, p.offset + c.utf8Size⟩

/-- The location after a text. -/
def advance (p : Point) (cs : List Char) : Point := cs.foldl step p

@[simp] theorem advance_nil (p : Point) : p.advance [] = p := rfl

@[simp] theorem advance_cons (p : Point) (c : Char) (cs : List Char) :
    p.advance (c :: cs) = (p.step c).advance cs := rfl

@[simp] theorem advance_append (p : Point) (a b : List Char) :
    p.advance (a ++ b) = (p.advance a).advance b := by
  simp [advance, List.foldl_append]

/-- An offset grows by the bytes of every character. -/
theorem offset_step (p : Point) (c : Char) : (p.step c).offset = p.offset + c.utf8Size := by
  unfold step
  split <;> rfl

/-- An offset grows by the bytes that a text takes. -/
theorem offset_advance (p : Point) (cs : List Char) :
    (p.advance cs).offset = p.offset + (String.ofList cs).utf8ByteSize := by
  induction cs generalizing p with
  | nil => simp
  | cons c cs ih =>
    rw [advance_cons, ih, offset_step, String.ofList_cons, String.utf8ByteSize_append,
      String.utf8ByteSize_singleton, Nat.add_assoc]

end Point

/-- The part of a location that messages give. -/
structure Place where
  line : Nat
  column : Nat
deriving DecidableEq, Repr

/-- A place as it is written in messages. -/
def Place.text (p : Place) : String := s!"{p.line}:{p.column}"

/-- The place of a location. -/
def Point.place (p : Point) : Place := ⟨p.line, p.column⟩

/-- A range of text from `start` up to, and without, `stop`. -/
structure Span where
  start : Point
  stop : Point
deriving DecidableEq, Repr

namespace Span

/-- The range that a text covers when it begins at `start`. -/
def covering (start : Point) (cs : List Char) : Span := ⟨start, start.advance cs⟩

/-- The range from the start of one span to the end of another. -/
def through (first last : Span) : Span := ⟨first.start, last.stop⟩

end Span

end Stencil
