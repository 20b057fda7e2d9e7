import Stencil.Extension
import Stencil.Filter
import Stencil.Identity
import Stencil.Tag

/-!
# Instructions

What a template is compiled to. An instruction writes text or the value of an expression, calls a
simple tag, runs the fragment of a raw tag or runs another template in place. Rendering is a
computation that can fail but keeps its state when it does.
-/

namespace Stencil

/-- What rendering reads and changes: the names in scope, the output so far, whether output is
escaped, and the calls of extensions. -/
structure RenderState where
  scope : Scope
  output : String
  autoescape : Bool
  calls : CallLog

/-- A step of rendering. The state it ends in counts also if it fails. -/
abbrev Render (α : Type) := ExceptT Error (StateM RenderState) α

/-- The rendering that a raw tag stands for. -/
structure Fragment where
  run : Render Unit

/-- A tag that is called with its evaluated arguments whenever it is rendered. The text it answers
is all its output; without an answer a block renders its body. -/
structure SimpleTag where
  kind : TagKind
  call : List Value → Option String

/-- A step of a compiled template. -/
inductive Instruction where
  /-- Write a text. -/
  | text (s : String)
  /-- Write the value of an expression. -/
  | output (e : BoundExpression)
  /-- Call a simple tag; a block has a body. -/
  | simple (tag : SimpleTag) (arguments : List BoundExpression) (body : Option (List Instruction))
  /-- Run the fragment of a raw tag. -/
  | fragment (f : Fragment)
  /-- Run another template in place. The serial number tells which compiled template it is. -/
  | included (identity : Identity) (serial : Nat) (body : List Instruction)

/-- The steps of a compiled template or of a block in it. -/
abbrev Body := List Instruction

end Stencil
