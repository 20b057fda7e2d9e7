import Stencil.Position
import Stencil.Tag

/-!
# Nodes

A template is a list of nodes: literal text, outputs, and tags, which may hold nodes of their own.
-/

namespace Stencil

/-- A node of a template. -/
inductive Node where
  /-- Literal text. -/
  | text (s : String)
  /-- The value of an expression. -/
  | output (expression : Expression) (span : Span)
  /-- A tag; one that stands alone has no children. -/
  | tag (head : TagHead) (kind : TagKind) (children : List Node) (span : Span)

namespace Node

mutual

/-- The openings of the tags in a node, in the order of the template. -/
def heads : Node → List TagHead
  | .text _ => []
  | .output .. => []
  | .tag head _ children _ => head :: headsOf children

/-- The openings of the tags in some nodes. -/
def headsOf : List Node → List TagHead
  | [] => []
  | node :: rest => node.heads ++ headsOf rest

end

theorem headsOf_eq_flatMap (nodes : List Node) : headsOf nodes = nodes.flatMap heads := by
  induction nodes with
  | nil => rfl
  | cons node rest ih => simp [headsOf, ih]

end Node

end Stencil
