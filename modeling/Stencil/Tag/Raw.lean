import Stencil.Filter.Bind
import Stencil.Instruction

/-!
# Raw tags

A raw tag supplies its own rendering. It sees its use in a template once, while the template is
compiled, and looks up there and then what its fragment will need.
-/

namespace Stencil

/-- What a raw tag sees of its use in a template. -/
structure RawTagInput where
  head : TagHead
  /-- The compiled body; only blocks have one. -/
  body : Option Body
  span : Span
  findFilter : FindFilter
  findExtension : String → Option BoundExtension

/-- A tag that supplies its own rendering. -/
structure RawTag where
  kind : TagKind
  compile : RawTagInput → Except Error Fragment

namespace RawTagInput

/-- The place of the tag in messages. -/
def place (input : RawTagInput) : Place := input.span.start.place

/-- The arguments of the tag. -/
def arguments (input : RawTagInput) : List String := input.head.arguments

/-- The body; empty if there is none. -/
def bodyOrEmpty (input : RawTagInput) : Body := input.body.getD []

/-- An error that says what is wrong with the arguments. -/
def invalidArguments (input : RawTagInput) (reason : String) : Error :=
  .invalidTagArguments input.head.name reason input.place

/-- Bind an expression from the arguments. -/
def expression (input : RawTagInput) (text : String) : Except Error BoundExpression :=
  BoundExpression.ofText input.findFilter input.place text

/-- Bind a filter chain from the arguments. -/
def filterChain (input : RawTagInput) (text : String) : Except Error FilterChain :=
  FilterChain.ofText input.findFilter input.place text

/-- Look up a filter. -/
def filter (input : RawTagInput) (name : String) : Except Error Filter :=
  match input.findFilter name with
  | some filter => .ok filter
  | none => .error (.unknownFilter name input.place)

/-- Look up an extension. -/
def extension (input : RawTagInput) (name : String) : Except Error BoundExtension :=
  match input.findExtension name with
  | some extension => .ok extension
  | none => .error (.unknownExtension name)

end RawTagInput

end Stencil
