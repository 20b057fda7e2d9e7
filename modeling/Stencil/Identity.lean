import Stencil.FileSystem.Path

/-!
# Identities of templates

What makes two templates the same for the cache and for the include stack: the source text, or the
path of the file, compared part by part.
-/

namespace Stencil

/-- What a template is known by. -/
inductive Identity where
  /-- A text that was compiled directly. -/
  | source (text : String)
  /-- A file, by its resolved path. -/
  | file (path : Path)
  /-- An identifier for which no file was found. -/
  | unresolved (identifier : String)
deriving DecidableEq, Repr

namespace Identity

/-- Whether two identities are the same. -/
def same : Identity → Identity → Bool
  | .source a, .source b => a == b
  | .file p, .file q => p.same q
  | .unresolved a, .unresolved b => a == b
  | _, _ => false

/-- An identity in messages. -/
def text : Identity → String
  | .source _ => "<source>"
  | .file path => path.text
  | .unresolved identifier => identifier

@[simp] theorem same_self (i : Identity) : i.same i = true := by cases i <;> simp [same]

theorem same_comm (i j : Identity) : i.same j = j.same i := by
  cases i <;> cases j <;> simp [same, Path.same, Bool.beq_comm]

theorem same_trans {i j k : Identity} (hij : i.same j = true) (hjk : j.same k = true) :
    i.same k = true := by
  cases i <;> cases j <;> cases k <;> simp_all [same, Path.same]

end Identity

end Stencil
