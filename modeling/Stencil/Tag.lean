import Stencil.Expression.Parse
import Stencil.Text.Blank
import Stencil.Text.Quoting

/-!
# Tags

A tag is known by a name. In a template its opening gives the name and, after a blank, arguments,
which are split at the blanks outside of string literals and brackets.
-/

namespace Stencil

/-- Whether a tag stands alone or delimits a body that ends with `end` and its name. -/
inductive TagKind where
  | standalone
  | block
deriving DecidableEq, Repr

/-- Split a text at blanks outside of string literals, parentheses and square brackets. `item` is
what was read of the current item, reversed; `depth` counts the open brackets. -/
def splitArgumentsFrom (item : List Char) (quoting : Text.Quoting) (depth : Nat) :
    List Char → List (List Char)
  | [] => if item = [] then [] else [item.reverse]
  | c :: rest =>
    match quoting with
    | .inside .. => splitArgumentsFrom (c :: item) (quoting.step c) depth rest
    | .bare =>
      if c = '(' ∨ c = '[' then splitArgumentsFrom (c :: item) .bare (depth + 1) rest
      else if c = ')' ∨ c = ']' then splitArgumentsFrom (c :: item) .bare (depth - 1) rest
      else if Text.isBlank c ∧ depth = 0 then
        if item = [] then splitArgumentsFrom [] .bare 0 rest
        else item.reverse :: splitArgumentsFrom [] .bare 0 rest
      else splitArgumentsFrom (c :: item) (quoting.step c) depth rest

/-- The arguments in the text after a tag name. -/
def splitArguments (raw : String) : List String :=
  (splitArgumentsFrom [] .bare 0 raw.toList).map String.ofList

/-- The opening of a tag: its name and what follows the name. -/
structure TagHead where
  name : String
  /-- Everything after the name, trimmed. -/
  raw : String
deriving DecidableEq, Repr

namespace TagHead

/-- The opening that the code of a tag marker holds. -/
def ofCode (code : String) : TagHead :=
  let content := Text.trim code.toList
  ⟨String.ofList (Text.firstWord content), String.ofList (Text.afterFirstWord content)⟩

/-- The arguments of the tag. -/
def arguments (head : TagHead) : List String := splitArguments head.raw

/-- The only argument of the tag, if it is a string literal. -/
def literal? (head : TagHead) : Option String :=
  match Expression.parse head.raw with
  | .ok e =>
    match e.literal? with
    | some (.string s) => some s
    | _ => none
  | .error _ => none

end TagHead

end Stencil
