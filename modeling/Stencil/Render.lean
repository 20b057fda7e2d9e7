import Stencil.Instruction
import Stencil.Value.Display

/-!
# Rendering

The operations of the render state and the meaning of instructions. A fragment is built from the
same operations.
-/

namespace Stencil

namespace Render

/-- Append a text to the output. -/
def write (text : String) : Render Unit :=
  modify fun s => { s with output := s.output ++ text }

/-- The value of a name in scope. -/
def lookUp? (name : String) : Render (Option Value) := do
  return Fields.find? name (← get).scope

/-- Give a name a value for the rest of the rendering. -/
def bind (name : String) (value : Value) : Render Unit :=
  modify fun s => { s with scope := Fields.insert name value s.scope }

/-- Whether output is escaped. -/
def autoescape : Render Bool := do return (← get).autoescape

/-- Say whether output is escaped from here on. -/
def setAutoescape (flag : Bool) : Render Unit :=
  modify fun s => { s with autoescape := flag }

/-- The value of an expression in the current scope. -/
def evaluate (e : BoundExpression) : Render Value := do
  ofExcept (e.evaluate (← get).scope)

/-- Write the value of an expression, escaped if output is escaped and its filters do not mark it
as safe. -/
def writeExpression (e : BoundExpression) : Render Unit := do
  let text := (← evaluate e).display
  if (← autoescape) && !e.isSafe then write (Text.escapeHtml text) else write text

/-- The answer of an extension, and the record of the call. -/
def call (e : BoundExtension) (arguments : List Value) : Render Value := do
  let s ← get
  set { s with calls := s.calls.record e.registration }
  return e.extension.answer (s.calls.count e.registration) arguments

/-- Run an action on an empty output and answer what it wrote. The output before is restored also
if the action fails; all other changes stay. -/
def captured (action : Render Unit) : Render String := do
  let outer := (← get).output
  modify fun s => { s with output := "" }
  let outcome ← ExceptT.lift action.run
  let inner := (← get).output
  modify fun s => { s with output := outer }
  ofExcept outcome
  return inner

/-- Run an action with output escaped or not, and go back to what was set before also if the action
fails. -/
def withAutoescape (flag : Bool) (action : Render Unit) : Render Unit := do
  let outer ← autoescape
  setAutoescape flag
  let outcome ← ExceptT.lift action.run
  setAutoescape outer
  ofExcept outcome

/-- The values of some expressions, up to the first that fails. -/
def evaluateAll : List BoundExpression → Render (List Value)
  | [] => return []
  | e :: rest => do return (← evaluate e) :: (← evaluateAll rest)

end Render

namespace Instruction

mutual

/-- Run an instruction. -/
def run : Instruction → Render Unit
  | .text s => Render.write s
  | .output e => Render.writeExpression e
  | .simple tag arguments body => do
    match tag.call (← Render.evaluateAll arguments) with
    | some answer => Render.write answer
    | none => runOptional body
  | .fragment f => f.run
  | .included _ _ body => runAll body

/-- Run instructions in order, up to the first that fails. -/
def runAll : List Instruction → Render Unit
  | [] => pure ()
  | i :: rest => do
    run i
    runAll rest

/-- Run a body, if there is one. -/
def runOptional : Option (List Instruction) → Render Unit
  | none => pure ()
  | some body => runAll body

end

/-- Instructions in two parts run one part after the other. -/
theorem runAll_append (first second : List Instruction) :
    runAll (first ++ second) = (do runAll first; runAll second) := by
  induction first with
  | nil => simp [runAll]
  | cons i rest ih => simp [runAll, ih]

end Instruction

namespace Body

/-- Write what a body renders. -/
def write (body : Body) : Render Unit := Instruction.runAll body

/-- What a body renders, without writing it. -/
def capture (body : Body) : Render String := Render.captured (Instruction.runAll body)

end Body

end Stencil
