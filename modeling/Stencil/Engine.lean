import Stencil.Cache
import Stencil.IncludeStack
import Stencil.Node.Compile
import Stencil.Node.Parse

/-!
# Engines

An engine compiles texts and files against its registry and keeps what it compiled in its cache.
Under the lenient policy a template that cannot be compiled is replaced by one that renders the
error, which is never cached; only the lack of file access is always an error.
-/

namespace Stencil

/-- Something that happens while templates are loaded. -/
inductive LoadEvent where
  /-- A template was entered, which made this stack. -/
  | entered (stack : IncludeStack)
  /-- A file was read. -/
  | read (path : Path)
deriving DecidableEq, Repr

/-- What loading reads and changes: the cache, the templates that are being compiled, the next
serial number, and what happened so far, newest first. -/
structure Loading where
  cache : Cache
  stack : IncludeStack
  nextSerial : Nat
  events : List LoadEvent

/-- A step of loading. The state it ends in counts also if it fails. -/
abbrev Load (α : Type) := ExceptT Error (StateM Loading) α

namespace Load

/-- Look up a template in the cache. -/
def cached? (identity : Identity) : Load (Option Template) := do
  let s ← get
  let (found, cache) := s.cache.get identity
  set { s with cache := cache }
  return found

/-- Store a template in the cache, and go on with the stored one. -/
def store (t : Template) : Load Template := do
  let s ← get
  let (stored, cache) := s.cache.insert t
  set { s with cache := cache }
  return stored

/-- Begin to compile a template. -/
def enter (identity : Identity) : Load Unit := do
  let s ← get
  let stack ← ofExcept (s.stack.enter identity)
  set { s with stack := stack, events := .entered stack :: s.events }

/-- End the compilation of the innermost template. -/
def leave : Load Unit := modify fun s => { s with stack := s.stack.leave }

/-- A number that no registry or template has yet. -/
def serial : Load Nat := do
  let s ← get
  set { s with nextSerial := s.nextSerial + 1 }
  return s.nextSerial

/-- The text of a file. -/
def readText (fs : FileSystem) (path : Path) : Load String := do
  modify fun s => { s with events := .read path :: s.events }
  ofExcept ((fs.readText path).mapError .file)

/-- Compile a text. -/
def build (registry : Registry) (load : String → Load Template) (identity : Identity)
    (text : String) : Load Template := do
  let nodes ← ofExcept (Node.parse registry.tagKind? text)
  let body ← Node.compileAll registry load nodes
  return ⟨identity, ← serial, registry, body⟩

/-- The template with an identity: the stored one, or the one compiled from the text that `read`
gives, which is then stored. -/
def template (registry : Registry) (load : String → Load Template) (identity : Identity)
    (read : Load String) : Load Template := do
  match ← cached? identity with
  | some t => return t
  | none =>
    enter identity
    let outcome ← ExceptT.lift (read >>= build registry load identity).run
    leave
    store (← ofExcept outcome)

/-- The template in the file of an identifier. `depth` bounds how deep inclusions may nest below it;
as no file is entered twice, a chain of inclusions that is longer than there are identifiers to
include goes round. -/
def file (registry : Registry) (fs : FileSystem) : Nat → String → Load Template
  | 0, identifier => throw (.circularInclude identifier)
  | depth + 1, identifier =>
    if registry.fileAccess then do
      let path ← ofExcept (fs.resolve identifier registry.roots)
      template registry (file registry fs depth) (.file path) (readText fs path)
    else throw .filesUnavailable

end Load

/-- A registry and the templates compiled against it, with the next serial number. -/
structure Engine where
  registry : Registry
  cache : Cache
  nextSerial : Nat

namespace Engine

/-- An engine with a set-up, whose registry has a serial number. -/
def ofOptions (serial : Nat) (workingDirectory : Path) (o : Options) : Engine :=
  let registry := Registry.ofOptions serial workingDirectory o
  ⟨registry, .empty registry.cache, serial + 1⟩

/-- Replace the set-up and drop all cached templates. -/
def init (e : Engine) (workingDirectory : Path) (o : Options) : Engine :=
  ofOptions e.nextSerial workingDirectory o

/-- Run a compilation, from an empty include stack. -/
def run {α : Type} (e : Engine) (action : Load α) : Except Error α × Loading :=
  action.run.run ⟨e.cache, .empty, e.nextSerial, []⟩

/-- The engine after a compilation. -/
def after (e : Engine) (s : Loading) : Engine :=
  { e with cache := s.cache, nextSerial := s.nextSerial }

/-- Answer the outcome of a compilation as the policy wants it. A failure uses up the serial number
of the template that stands for it under either policy, so that the policy shows in no later one. -/
def applyPolicy (e : Engine) (identity : Identity) :
    Except Error Template × Loading → Except Error Template × Engine
  | (.ok t, s) => (.ok t, e.after s)
  | (.error error, s) =>
    let next := e.after { s with nextSerial := s.nextSerial + 1 }
    if e.registry.policy.isStrict || error.kind == .filesUnavailable then (.error error, next)
    else (.ok (.fallback identity s.nextSerial e.registry error), next)

/-- Compile a text. -/
def compile (e : Engine) (fs : FileSystem) (source : String) : Except Error Template × Engine :=
  let load := Load.file e.registry fs (fs.size + source.utf8ByteSize + 1)
  e.applyPolicy (.source source) (e.run (Load.template e.registry load (.source source)
    (pure source)))

/-- Compile the file of an identifier. -/
def compileFile (e : Engine) (fs : FileSystem) (identifier : String) :
    Except Error Template × Engine :=
  e.applyPolicy (.unresolved identifier)
    (e.run (Load.file e.registry fs (fs.size + 2) identifier))

/-- What the cache has counted. -/
def stats (e : Engine) : CacheStats := e.cache.stats

end Engine

end Stencil
