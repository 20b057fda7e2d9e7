import Stencil.FileSystem
import Stencil.Settings.Document

/-!
# Settings

Settings of an engine can stand in a file of a project directory. Each of four keys may be given at
most once, and no other key may be.
-/

namespace Stencil

/-- The roots that a settings file names: one, or several in order. -/
inductive RootSetting where
  | one (path : String)
  | many (paths : List String)
deriving DecidableEq, Repr

/-- What a settings file says; nothing is said about a key that is not there. -/
structure Settings where
  root : Option RootSetting
  allowErrors : Option Bool
  autoescape : Option Bool
  cache : Option Bool
deriving DecidableEq, Repr

namespace Settings

/-- Settings that say nothing. -/
def none : Settings := ⟨.none, .none, .none, .none⟩

/-- Take in one entry of a document. -/
def takeEntry (settings : Settings) : String × Datum → Option Settings
  | ("root", .text path) =>
    if settings.root.isNone then some { settings with root := some (.one path) } else .none
  | ("root", .texts paths) =>
    if settings.root.isNone then some { settings with root := some (.many paths) } else .none
  | ("allow_errors", .flag b) =>
    if settings.allowErrors.isNone then some { settings with allowErrors := some b } else .none
  | ("autoescape", .flag b) =>
    if settings.autoescape.isNone then some { settings with autoescape := some b } else .none
  | ("cache", .flag b) =>
    if settings.cache.isNone then some { settings with cache := some b } else .none
  | _ => .none

/-- The settings in a text. -/
def parse? (text : String) : Option Settings :=
  (Document.entries? text).bind fun entries => entries.foldlM takeEntry none

/-- Where a settings file may stand in a directory; the first one that is there counts. -/
def candidates : List String := ["quill.toml", ".quill.toml", ".config/quill.toml"]

/-- The settings file of a directory. -/
def find? (fs : FileSystem) (directory : Path) : Option Path :=
  (candidates.map fun name => directory.join ⟨name⟩).find? fs.isFile

/-- The settings of a directory, if it has a settings file. What is wrong with a file that cannot be
understood is not said. -/
def load (fs : FileSystem) (directory : Path) : Except Error (Option Settings) :=
  match find? fs directory with
  | .none => .ok .none
  | some path =>
    match fs.readText path with
    | .error e => .error (.file e)
    | .ok text =>
      match parse? text with
      | some settings => .ok (some settings)
      | .none => .error (.invalidSettings "")

end Settings

end Stencil
