import Stencil.Error
import Stencil.Identity

/-!
# Include stacks

The templates that are being compiled, each because the one before it includes it. A template that
is on the stack cannot be entered again.
-/

namespace Stencil

/-- The identities of the templates that are being compiled, innermost first. -/
structure IncludeStack where
  identities : List Identity
deriving DecidableEq, Repr

namespace IncludeStack

/-- The stack on which nothing is being compiled. -/
def empty : IncludeStack := ⟨[]⟩

/-- Whether a template is being compiled. -/
def contains (s : IncludeStack) (identity : Identity) : Bool :=
  s.identities.any fun i => i.same identity

/-- Begin to compile a template. -/
def enter (s : IncludeStack) (identity : Identity) : Except Error IncludeStack :=
  if s.contains identity then .error (.circularInclude identity.text)
  else .ok ⟨identity :: s.identities⟩

/-- End the compilation of the innermost template. -/
def leave (s : IncludeStack) : IncludeStack := ⟨s.identities.tail⟩

/-- The number of templates that are being compiled. -/
def depth (s : IncludeStack) : Nat := s.identities.length

/-- Leaving undoes entering. -/
theorem leave_of_enter {s t : IncludeStack} {identity : Identity}
    (h : s.enter identity = .ok t) : t.leave = s := by
  unfold enter at h
  split at h
  · simp at h
  · simp only [Except.ok.injEq] at h
    subst h
    rfl

end IncludeStack

end Stencil
