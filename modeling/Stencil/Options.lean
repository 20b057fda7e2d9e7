import Stencil.Settings
import Stencil.Tag.Raw

/-!
# Options

What an engine is set up with. Everything has a default, and what is not given stays at it; of two
handlers of one kind and name the later one counts.
-/

namespace Stencil

/-- Where the files of templates are looked for. -/
inductive Roots where
  | workingDirectory
  | one (path : Path)
  | many (paths : List Path)
deriving DecidableEq, Repr

namespace Roots

/-- The directories in the order in which they are tried. No path at all means the working
directory. -/
def candidates (workingDirectory : Path) : Roots → List Path
  | .one path => [path]
  | .many (path :: rest) => path :: rest
  | .many [] => [workingDirectory]
  | .workingDirectory => [workingDirectory]

/-- There is always a directory to try. -/
theorem candidates_ne_nil (workingDirectory : Path) (roots : Roots) :
    roots.candidates workingDirectory ≠ [] := by
  unfold candidates
  split <;> simp

end Roots

/-- How failures reach the caller. -/
inductive Policy where
  /-- As errors. -/
  | strict
  /-- As templates that render a description of the error. -/
  | lenient
deriving DecidableEq, Repr

namespace Policy

/-- The policy that allows errors, or the one that does not. -/
def ofAllowErrors (allow : Bool) : Policy := if allow then .strict else .lenient

/-- Whether failures are errors. -/
def isStrict : Policy → Bool
  | .strict => true
  | .lenient => false

/-- The name of a policy. -/
def name : Policy → String
  | .strict => "strict"
  | .lenient => "lenient"

end Policy

/-- The set-up of an engine. -/
structure Options where
  filters : Fields Filter
  rawTags : Fields RawTag
  simpleTags : Fields SimpleTag
  extensions : Fields Extension
  roots : Roots
  policy : Policy
  autoescape : Bool
  cache : Bool
  fileAccess : Bool

namespace Options

/-- The set-up with nothing given: lenient, escaping, caching and with files. -/
def default : Options where
  filters := []
  rawTags := []
  simpleTags := []
  extensions := []
  roots := .workingDirectory
  policy := .lenient
  autoescape := true
  cache := true
  fileAccess := true

instance : Inhabited Options := ⟨default⟩

/-- Register a filter. -/
def withFilter (o : Options) (name : String) (filter : Filter) : Options :=
  { o with filters := Fields.insert name filter o.filters }

/-- Register a raw tag. -/
def withRawTag (o : Options) (name : String) (tag : RawTag) : Options :=
  { o with rawTags := Fields.insert name tag o.rawTags }

/-- Register a simple tag. -/
def withSimpleTag (o : Options) (name : String) (tag : SimpleTag) : Options :=
  { o with simpleTags := Fields.insert name tag o.simpleTags }

/-- Register an extension. -/
def withExtension (o : Options) (name : String) (extension : Extension) : Options :=
  { o with extensions := Fields.insert name extension o.extensions }

/-- The roots that a setting names, relative to the directory of the settings file. -/
def rootsOf (directory : Path) : RootSetting → Roots
  | .one path => .one (directory.join ⟨path⟩)
  | .many paths => .many (paths.map fun path => directory.join ⟨path⟩)

/-- The set-up that some settings describe. -/
def ofSettings (directory : Path) (settings : Settings) : Options :=
  { default with
    roots := (settings.root.map (rootsOf directory)).getD default.roots
    policy := (settings.allowErrors.map Policy.ofAllowErrors).getD default.policy
    autoescape := settings.autoescape.getD default.autoescape
    cache := settings.cache.getD default.cache }

/-- The set-up that the settings file of a directory describes; the default one without a file. -/
def ofDirectory (fs : FileSystem) (directory : Path) : Except Error Options :=
  (Settings.load fs directory).map fun settings =>
    (settings.map (ofSettings directory)).getD default

end Options

end Stencil
