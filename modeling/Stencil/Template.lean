import Stencil.Registry
import Stencil.Render

/-!
# Compiled templates

A compiled template renders the data of a context. It keeps the registry it was compiled with, so
that nothing that happens to an engine later changes how it renders.
-/

namespace Stencil

/-- The scope that a value gives: an object is one, and null is an empty one. -/
def Scope.ofValue : Value → Except Error Scope
  | .object fields => .ok fields
  | .null => .ok []
  | .bool _ => .error (.invalidContext "a boolean")
  | .number _ => .error (.invalidContext "a number")
  | .string _ => .error (.invalidContext "a string")
  | .array _ => .error (.invalidContext "an array")

/-- A template that is ready to render. The serial number tells compiled templates apart. -/
structure Template where
  identity : Identity
  serial : Nat
  registry : Registry
  body : Body

namespace Template

/-- The policy that a template was compiled with. -/
def policy (t : Template) : Policy := t.registry.policy

/-- The template that renders the description of an error. -/
def fallback (identity : Identity) (serial : Nat) (registry : Registry) (e : Error) : Template :=
  ⟨identity, serial, registry, [.text e.block]⟩

/-- The state in which rendering begins. -/
def initialState (t : Template) (scope : Scope) (calls : CallLog) : RenderState :=
  ⟨scope, "", t.registry.autoescape, calls⟩

/-- The output of a template, and the calls of extensions so far. A lenient template that fails
renders the description of the error, and nothing of what it wrote before. -/
def render (t : Template) (scope : Scope) (calls : CallLog) : Except Error String × CallLog :=
  match Body.write t.body (t.initialState scope calls) with
  | (.ok (), after) => (.ok after.output, after.calls)
  | (.error e, after) =>
    (if t.policy.isStrict then .error e else .ok e.block, after.calls)

/-- A lenient template always renders. -/
theorem render_isOk_of_lenient {t : Template} (h : t.policy = .lenient) (scope : Scope)
    (calls : CallLog) : ∃ output, (t.render scope calls).1 = .ok output := by
  unfold render
  split
  · exact ⟨_, rfl⟩
  · exact ⟨_, by simp [h, Policy.isStrict]; rfl⟩

end Template

end Stencil
