import Stencil.Template

/-!
# Template caches

Compiled templates by identity. Of several templates with one identity the first one stays, until
all are dropped at once. Looking up is counted.
-/

namespace Stencil

/-- What a cache has counted. -/
structure CacheStats where
  hits : Nat
  misses : Nat
  entries : Nat
deriving DecidableEq, Repr

/-- Compiled templates, newest first. A cache that is not enabled stores and counts nothing. -/
structure Cache where
  enabled : Bool
  templates : List Template
  hits : Nat
  misses : Nat

namespace Cache

/-- A cache without templates. -/
def empty (enabled : Bool) : Cache := ⟨enabled, [], 0, 0⟩

/-- The stored template with an identity. -/
def find? (c : Cache) (identity : Identity) : Option Template :=
  c.templates.find? fun t => t.identity.same identity

/-- Look up a template, and count whether it was there. -/
def get (c : Cache) (identity : Identity) : Option Template × Cache :=
  if c.enabled then
    match c.find? identity with
    | some t => (some t, { c with hits := c.hits + 1 })
    | none => (none, { c with misses := c.misses + 1 })
  else (none, c)

/-- Store a template unless there is one with its identity, and answer the stored one. -/
def insert (c : Cache) (t : Template) : Template × Cache :=
  if c.enabled then
    match c.find? t.identity with
    | some stored => (stored, c)
    | none => (t, { c with templates := t :: c.templates })
  else (t, c)

/-- Drop all templates and counts. -/
def clear (c : Cache) : Cache := empty c.enabled

/-- The number of stored templates. -/
def size (c : Cache) : Nat := c.templates.length

/-- What the cache has counted. -/
def stats (c : Cache) : CacheStats := ⟨c.hits, c.misses, c.size⟩

/-- A lookup changes no template. -/
@[simp] theorem templates_get (c : Cache) (identity : Identity) :
    (c.get identity).2.templates = c.templates := by
  unfold get
  split
  · split <;> rfl
  · rfl

end Cache

end Stencil
