import Stencil.Filter.Builtin
import Stencil.Options
import Stencil.Tag.Builtin

/-!
# Registries

The names that templates are compiled against: the built-in filters and tags with those of the
options over them. A registry never changes; every compiled template keeps its own.
-/

namespace Stencil

/-- What a tag name stands for. -/
inductive TagEntry where
  | simple (tag : SimpleTag)
  | raw (tag : RawTag)
  /-- The tag that puts another template in place. -/
  | inclusion

/-- The kind of a tag. -/
def TagEntry.kind : TagEntry → TagKind
  | .simple tag => tag.kind
  | .raw tag => tag.kind
  | .inclusion => .standalone

/-- Everything that compiling a template looks up. The serial number tells registries apart. -/
structure Registry where
  serial : Nat
  filters : Fields Filter
  rawTags : Fields RawTag
  simpleTags : Fields SimpleTag
  extensions : Fields Extension
  roots : List Path
  policy : Policy
  autoescape : Bool
  cache : Bool
  fileAccess : Bool

namespace Registry

/-- The registry of a set-up. -/
def ofOptions (serial : Nat) (workingDirectory : Path) (o : Options) : Registry where
  serial := serial
  filters := Fields.insertAll (Fields.ofList Filter.builtins) o.filters
  rawTags := Fields.insertAll (Fields.ofList RawTag.builtins) o.rawTags
  simpleTags := o.simpleTags
  extensions := o.extensions
  roots := o.roots.candidates workingDirectory
  policy := o.policy
  autoescape := o.autoescape
  cache := o.cache
  fileAccess := o.fileAccess

/-- The filter of a name. -/
def filter? (r : Registry) (name : String) : Option Filter := Fields.find? name r.filters

/-- The extension of a name. -/
def extension? (r : Registry) (name : String) : Option BoundExtension :=
  (Fields.find? name r.extensions).map fun e => ⟨⟨r.serial, name⟩, e⟩

/-- The name of the tag that puts another template in place. -/
def inclusionName : String := "include"

/-- What a tag name stands for: a simple tag before a raw tag, and both before the inclusion. -/
def tag? (r : Registry) (name : String) : Option TagEntry :=
  match Fields.find? name r.simpleTags with
  | some tag => some (.simple tag)
  | none =>
    match Fields.find? name r.rawTags with
    | some tag => some (.raw tag)
    | none => if name = inclusionName then some .inclusion else none

/-- The kind of the tag of a name. -/
def tagKind? (r : Registry) (name : String) : Option TagKind := (r.tag? name).map TagEntry.kind

theorem tag?_eq_simple {r : Registry} {name : String} {tag : SimpleTag}
    (h : r.tag? name = some (.simple tag)) : Fields.find? name r.simpleTags = some tag := by
  unfold tag? at h
  split at h
  · next found =>
    cases h
    exact found
  · split at h
    · cases h
    · split at h <;> cases h

/-- A raw tag has a name that no simple tag has. -/
theorem tag?_eq_raw {r : Registry} {name : String} {tag : RawTag}
    (h : r.tag? name = some (.raw tag)) :
    Fields.find? name r.simpleTags = none ∧ Fields.find? name r.rawTags = some tag := by
  unfold tag? at h
  split at h
  · cases h
  · next hsimple =>
    split at h
    · next found =>
      cases h
      exact ⟨hsimple, found⟩
    · split at h <;> cases h

/-- The inclusion has its name where no simple tag has this name. -/
theorem tag?_eq_inclusion {r : Registry} {name : String} (h : r.tag? name = some .inclusion) :
    Fields.find? name r.simpleTags = none ∧ name = inclusionName := by
  unfold tag? at h
  split at h
  · cases h
  · next hsimple =>
    split at h
    · cases h
    · split at h
      · next hname => exact ⟨hsimple, hname⟩
      · cases h

/-- A registry always has a directory to look in. -/
theorem roots_ofOptions_ne_nil (serial : Nat) (workingDirectory : Path) (o : Options) :
    (ofOptions serial workingDirectory o).roots ≠ [] :=
  o.roots.candidates_ne_nil workingDirectory

end Registry

end Stencil
