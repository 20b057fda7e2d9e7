import Stencil.Render
import Stencil.Tag.Raw

/-!
# Built-in tags

The raw tags under every registry: `set` binds a name, `autoescape` switches escaping for its body,
`spaceless` removes the blanks between HTML tags and `filter` sends its body through a filter chain.
-/

namespace Stencil.RawTag

/-- Whether a text is a name that can be bound. -/
def isName : List Char → Bool
  | [] => false
  | c :: rest => Lexeme.isWordStart c && rest.all Lexeme.isWordPart

/-- The text before the first equals sign, and the text after it. -/
def splitBinding? (cs : List Char) : Option (List Char × List Char) :=
  match cs.dropWhile (· ≠ '=') with
  | [] => none
  | _ :: right => some (cs.takeWhile (· ≠ '='), right)

/-- Bind a name to the value of an expression for the rest of the rendering. -/
def set : RawTag where
  kind := .standalone
  compile input := match splitBinding? input.head.raw.toList with
    | none => .error (input.invalidArguments "expected `name = expression`")
    | some (left, right) =>
      let name := String.ofList (Text.trim left)
      if isName name.toList then
        (input.expression (String.ofList (Text.trim right))).map fun e =>
          ⟨do Render.bind name (← Render.evaluate e)⟩
      else .error (input.invalidArguments s!"`{name}` is not a valid variable name")

/-- Switch escaping on or off for the body. -/
def autoescape : RawTag where
  kind := .block
  compile input :=
    let fragment (flag : Bool) : Fragment :=
      ⟨Render.withAutoescape flag (Body.write input.bodyOrEmpty)⟩
    match input.arguments with
    | [] => .ok (fragment true)
    | ["true"] => .ok (fragment true)
    | ["false"] => .ok (fragment false)
    | _ => .error (input.invalidArguments "expected `true` or `false`")

/-- Remove the blanks between a `>` and the next `<`; `blanks` holds, reversed, those that were read
since a `>`, if nothing else came after it. -/
def squeezeFrom (blanks : Option (List Char)) : List Char → List Char
  | [] => (blanks.getD []).reverse
  | c :: rest =>
    match blanks with
    | some read =>
      if Text.isBlank c then squeezeFrom (some (c :: read)) rest
      else
        (if c = '<' then [] else read.reverse) ++
          c :: squeezeFrom (if c = '>' then some [] else none) rest
    | none => c :: squeezeFrom (if c = '>' then some [] else none) rest

theorem squeezeFrom_nil (blanks : Option (List Char)) :
    squeezeFrom blanks [] = (blanks.getD []).reverse := rfl

/-- Blanks after a `>` wait for what comes next. -/
theorem squeezeFrom_some_cons (read : List Char) (c : Char) (rest : List Char) :
    squeezeFrom (some read) (c :: rest) =
      if Text.isBlank c then squeezeFrom (some (c :: read)) rest
      else
        (if c = '<' then [] else read.reverse) ++
          c :: squeezeFrom (if c = '>' then some [] else none) rest := rfl

/-- Away from a `>` every character stays. -/
theorem squeezeFrom_none_cons (c : Char) (rest : List Char) :
    squeezeFrom none (c :: rest) = c :: squeezeFrom (if c = '>' then some [] else none) rest := rfl

/-- Remove the blanks that stand directly between a `>` and a `<`. -/
def squeeze (cs : List Char) : List Char := squeezeFrom none cs

/-- Remove the blanks between HTML tags in the rendered body. -/
def spaceless : RawTag where
  kind := .block
  compile input :=
    if input.arguments = [] then
      .ok ⟨do
        let text ← Body.capture input.bodyOrEmpty
        Render.write (String.ofList (squeeze text.toList))⟩
    else .error (input.invalidArguments "takes no arguments")

/-- Send the rendered body through a filter chain. -/
def filter : RawTag where
  kind := .block
  compile input :=
    if input.head.raw = "" then .error (input.invalidArguments "expected a filter name")
    else (input.filterChain input.head.raw).map fun chain =>
      ⟨do
        let text ← Body.capture input.bodyOrEmpty
        let value ← ofExcept (FilterChain.apply (← get).scope chain (.string text))
        Render.write value.display⟩

/-- The tags under every registry, by name. -/
def builtins : List (String × RawTag) :=
  [("set", set), ("autoescape", autoescape), ("spaceless", spaceless), ("filter", filter)]

end Stencil.RawTag
