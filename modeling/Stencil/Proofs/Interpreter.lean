import Stencil.Proofs.Session

/-!
# Interpreting templates

A reference for what templates mean, without instructions, fragments, caches or include stacks. The
nodes of a template are walked in order; names of filters and tags are looked up when their turn
comes, and an inclusion walks the nodes of the file in place.
-/

namespace Stencil

/-- What interpreting reads and changes: the names in scope, and whether output is escaped. -/
structure Surroundings where
  scope : Scope
  autoescape : Bool

/-- A step of interpreting. -/
abbrev Interpretation (α : Type) := StateT Surroundings (Except Error) α

namespace Interpretation

section Steps

variable {α β : Type}

@[simp] theorem pure_apply (a : α) (s : Surroundings) :
    (pure a : Interpretation α) s = .ok (a, s) := rfl

@[simp] theorem throw_apply (e : Error) (s : Surroundings) :
    (throw e : Interpretation α) s = .error e := rfl

@[simp] theorem get_apply (s : Surroundings) :
    (get : Interpretation Surroundings) s = .ok (s, s) := rfl

@[simp] theorem modify_apply (f : Surroundings → Surroundings) (s : Surroundings) :
    (modify f : Interpretation PUnit) s = .ok (⟨⟩, f s) := rfl

@[simp] theorem ofExcept_apply (x : Except Error α) (s : Surroundings) :
    (ofExcept x : Interpretation α) s = x.map fun a ↦ (a, s) := by
  cases x <;> rfl

@[simp] theorem bind_apply (x : Interpretation α) (f : α → Interpretation β) (s : Surroundings) :
    (x >>= f) s = match x s with
      | .ok (a, after) => f a after
      | .error e => .error e := by
  change (x s).bind _ = _
  rcases x s with _ | ⟨_, _⟩ <;> rfl

/-- Two steps succeed exactly when the first one does and the second one does after it. -/
theorem bind_eq_ok {x : Interpretation α} {f : α → Interpretation β} {s after : Surroundings}
    {b : β} : (x >>= f) s = .ok (b, after) ↔
      ∃ a middle, x s = .ok (a, middle) ∧ f a middle = .ok (b, after) := by
  rw [bind_apply]
  cases x s with
  | error e => simp
  | ok result =>
    obtain ⟨a, middle⟩ := result
    constructor
    · intro h
      exact ⟨a, middle, rfl, h⟩
    · rintro ⟨_, _, ⟨⟩, h⟩
      exact h

end Steps

section Tags

variable (r : Registry) (place : Place)

/-- Feed a value through filter calls. -/
def applyCalls (scope : Scope) : List FilterCall → Value → Except Error Value
  | [], value => .ok value
  | call :: rest, value =>
    match r.filter? call.name with
    | none => .error (.unknownFilter call.name place)
    | some filter =>
      match filter.apply value (call.arguments.map (Expr.evaluate scope)) with
      | .ok next => applyCalls scope rest next
      | .error e => .error e

/-- The value of an expression. -/
def expression (e : Expression) : Interpretation Value := do
  let scope := (← get).scope
  ofExcept (applyCalls r place scope e.filters (e.base.evaluate scope))

/-- The value of the expression that is written in a text. -/
def expressionText (text : String) : Interpretation Value :=
  match Expression.parse text with
  | .ok e => expression r place e
  | .error fault => throw (fault.error place)

/-- The values of the expressions that are written in some texts, in order. -/
def expressionTexts : List String → Interpretation (List Value)
  | [] => return []
  | text :: rest => do return (← expressionText r place text) :: (← expressionTexts rest)

/-- Whether some call names a filter whose output is not escaped again. -/
def isSafe (calls : List FilterCall) : Bool :=
  calls.any fun call ↦ FilterChain.safeNames.contains call.name

/-- The output of an expression. -/
def output (e : Expression) : Interpretation String := do
  let text := (← expression r place e).display
  if (← get).autoescape && !isSafe e.filters then return Text.escapeHtml text else return text

/-- Bind a name. -/
def set (head : TagHead) : Interpretation String :=
  match RawTag.splitBinding? head.raw.toList with
  | none => throw (.invalidTagArguments head.name "expected `name = expression`" place)
  | some (left, right) => do
    let name := String.ofList (Text.trim left)
    if RawTag.isName name.toList then
      let value ← expressionText r place (String.ofList (Text.trim right))
      modify fun s ↦ { s with scope := Fields.insert name value s.scope }
      return ""
    else throw (.invalidTagArguments head.name s!"`{name}` is not a valid variable name" place)

/-- Interpret a body with output escaped or not. -/
def withAutoescape (flag : Bool) (body : Interpretation String) : Interpretation String := do
  let outer := (← get).autoescape
  modify fun s ↦ { s with autoescape := flag }
  let text ← body
  modify fun s ↦ { s with autoescape := outer }
  return text

/-- Interpret a body with output escaped as the arguments say. -/
def autoescape (head : TagHead) (body : Interpretation String) : Interpretation String :=
  match head.arguments with
  | [] => withAutoescape true body
  | ["true"] => withAutoescape true body
  | ["false"] => withAutoescape false body
  | _ => throw (.invalidTagArguments head.name "expected `true` or `false`" place)

/-- Interpret a body and remove the blanks between its HTML tags. -/
def spaceless (head : TagHead) (body : Interpretation String) : Interpretation String :=
  if head.arguments = [] then do return String.ofList (RawTag.squeeze (← body).toList)
  else throw (.invalidTagArguments head.name "takes no arguments" place)

/-- Interpret a body and feed its output through the filter calls in the arguments. -/
def filter (head : TagHead) (body : Interpretation String) : Interpretation String :=
  if head.raw = "" then throw (.invalidTagArguments head.name "expected a filter name" place)
  else match Expression.parseChain head.raw with
    | .error fault => throw (fault.error place)
    | .ok calls => do
      let text ← body
      let value ← ofExcept (applyCalls r place (← get).scope calls (.string text))
      return value.display

/-- Interpret a tag with a body: a simple tag, one of the built-in raw tags, or an inclusion, which
is looked for in this order. -/
def tag (inclusion : String → Interpretation String) (head : TagHead)
    (body : Interpretation String) : Interpretation String :=
  match Fields.find? head.name r.simpleTags with
  | some simple => do
    match simple.call (← expressionTexts r place head.arguments) with
    | some answer => return answer
    | none => body
  | none =>
    if head.name = "set" then set r place head
    else if head.name = "autoescape" then autoescape place head body
    else if head.name = "spaceless" then spaceless place head body
    else if head.name = "filter" then filter r place head body
    else if head.name = Registry.inclusionName then
      match head.literal? with
      | some identifier => inclusion identifier
      | none =>
        throw (.invalidTagArguments head.name "expected a quoted template identifier" place)
    else throw (.unknownTag head.name place)

end Tags

/-- The body of a tag: only blocks have one. -/
def bodyOf (kind : TagKind) (body : Interpretation String) : Interpretation String :=
  match kind with
  | .block => body
  | .standalone => return ""

section Walk

variable (r : Registry) (inclusion : String → Interpretation String)

mutual

/-- Interpret a node. -/
def node : Node → Interpretation String
  | .text s => return s
  | .output e span => output r span.start.place e
  | .tag head kind children span =>
    tag r span.start.place inclusion head (bodyOf kind (nodes children))

/-- Interpret nodes in order. -/
def nodes : List Node → Interpretation String
  | [] => return ""
  | first :: rest => do return (← node first) ++ (← nodes rest)

end

/-- Interpret a text. -/
def source (text : String) : Interpretation String := do
  nodes r inclusion (← ofExcept (Node.parse r.tagKind? text))

end Walk

/-- Interpret the file of an identifier. `depth` bounds how deep inclusions may nest. -/
def file (r : Registry) (fs : FileSystem) : Nat → String → Interpretation String
  | 0, identifier => throw (.circularInclude identifier)
  | depth + 1, identifier =>
    if r.fileAccess then do
      let path ← ofExcept (fs.resolve identifier r.roots)
      source r (file r fs depth) (← ofExcept ((fs.readText path).mapError .file))
    else throw .filesUnavailable

/-- Interpret what is asked for. -/
def request (r : Registry) (fs : FileSystem) (depth : Nat) : Request → Interpretation String
  | .text text => source r (file r fs depth) text
  | .file identifier => file r fs depth identifier

/-- The output of what is asked for in a scope. -/
def render (r : Registry) (fs : FileSystem) (depth : Nat) (q : Request) (scope : Scope) :
    Except Error String :=
  (request r fs depth q ⟨scope, r.autoescape⟩).map Prod.fst

end Interpretation

end Stencil
