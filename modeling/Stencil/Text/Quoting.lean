/-!
# Quoting state

A reader that walks over code has to know whether it stands inside a string literal. A literal
starts at a single or double quote and ends at the next equal quote that no backslash escapes;
a backslash outside literals has no meaning.
-/

namespace Stencil.Text

/-- Where a reader stands with respect to string literals. -/
inductive Quoting where
  /-- Outside of every literal. -/
  | bare
  /-- Inside a literal closed by `delimiter`; `escaped` tells that a backslash came just before. -/
  | inside (delimiter : Char) (escaped : Bool)
deriving DecidableEq, Repr

namespace Quoting

/-- The state after one more character. -/
def step : Quoting → Char → Quoting
  | .bare, c => if c = '"' ∨ c = '\'' then .inside c false else .bare
  | .inside delimiter true, _ => .inside delimiter false
  | .inside delimiter false, c =>
    if c = '\\' then .inside delimiter true
    else if c = delimiter then .bare
    else .inside delimiter false

/-- The state after a text. -/
def run (q : Quoting) (cs : List Char) : Quoting := cs.foldl step q

@[simp] theorem run_nil (q : Quoting) : q.run [] = q := rfl

@[simp] theorem run_cons (q : Quoting) (c : Char) (cs : List Char) :
    q.run (c :: cs) = (q.step c).run cs := rfl

@[simp] theorem run_append (q : Quoting) (a b : List Char) : q.run (a ++ b) = (q.run a).run b := by
  simp [run, List.foldl_append]

end Quoting

end Stencil.Text
