import Stencil.Node
import Stencil.Template

/-!
# From nodes to instructions

Every name in a template is looked up in the registry when it is compiled. How included templates
are obtained, and in which computation that happens, is left open here: `load` stands for it.
-/

namespace Stencil

/-- The instruction for a raw tag with its compiled body. -/
def RawTag.instruction (tag : RawTag) (registry : Registry) (head : TagHead) (span : Span)
    (body : Option Body) : Except Error Instruction :=
  (tag.compile ⟨head, body, span, registry.filter?, registry.extension?⟩).map .fragment

namespace Node

variable {m : Type → Type} [Monad m] [MonadExcept Error m]

/-- The body of a tag: only blocks have one. -/
def bodyOf (kind : TagKind) (body : m Body) : m (Option Body) :=
  match kind with
  | .block => some <$> body
  | .standalone => pure none

mutual

/-- Compile a node. -/
def compile (registry : Registry) (load : String → m Template) : Node → m Instruction
  | .text s => pure (.text s)
  | .output e span =>
    .output <$> ofExcept (BoundExpression.bind registry.filter? span.start.place e)
  | .tag head kind children span =>
    match registry.tag? head.name with
    | none => throw (.unknownTag head.name span.start.place)
    | some (.simple handler) => do
      let arguments ← ofExcept
        (BoundExpression.ofTexts registry.filter? span.start.place head.arguments)
      let body ← bodyOf kind (compileAll registry load children)
      return .simple handler arguments body
    | some (.raw handler) => do
      let body ← bodyOf kind (compileAll registry load children)
      ofExcept (handler.instruction registry head span body)
    | some .inclusion =>
      match head.literal? with
      | none =>
        throw (.invalidTagArguments head.name "expected a quoted template identifier"
          span.start.place)
      | some identifier => do
        let template ← load identifier
        return .included template.identity template.serial template.body

/-- Compile nodes in order. -/
def compileAll (registry : Registry) (load : String → m Template) : List Node → m Body
  | [] => pure []
  | first :: rest => do
    let instruction ← compile registry load first
    return instruction :: (← compileAll registry load rest)

end

end Node

end Stencil
