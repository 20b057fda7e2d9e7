import Stencil.Node
import Stencil.Token.Scan

/-!
# From tokens to nodes

An output marker holds an expression; a tag marker holds the opening of a tag or the end of the
innermost open block. Whether a name is a tag, and of which kind, is for a registry to say: a name
that is none may be the end of a block.
-/

namespace Stencil

namespace Node

/-- A block that is still open, with the nodes before it at its level, reversed. -/
structure OpenBlock where
  head : TagHead
  span : Span
  before : List Node

/-- The name of the block that an end tag of a name closes. -/
def closedBy? (name : String) : Option String :=
  match name.toList with
  | 'e' :: 'n' :: 'd' :: rest => some (String.ofList rest)
  | _ => none

/-- Where the walk stands: the nodes read at the innermost level, reversed, and the open blocks,
innermost first. -/
structure Progress where
  nodes : List Node
  blocks : List OpenBlock

/-- Take in an output marker that covers a span. -/
def takeOutput (progress : Progress) (code : String) (codeStart : Point) (span : Span) :
    Except Error Progress :=
  match Expression.parse code with
  | .ok e => .ok { progress with nodes := .output e span :: progress.nodes }
  | .error fault => .error (fault.error codeStart.place)

/-- Take in an end tag of a name. -/
def takeEnd (progress : Progress) (name : String) (span : Span) : Except Error Progress :=
  match closedBy? name, progress.blocks with
  | none, _ => .error (.unknownTag name span.start.place)
  | some _, [] => .error (.unexpectedEndTag name span.start.place)
  | some closed, block :: outer =>
    if block.head.name = closed then
      .ok ⟨.tag block.head .block progress.nodes.reverse (block.span.through span) :: block.before,
        outer⟩
    else .error (.mismatchedEndTag block.head.name name span.start.place)

/-- Take in a tag marker that covers a span. -/
def takeTag (kindOf : String → Option TagKind) (progress : Progress) (code : String)
    (span : Span) : Except Error Progress :=
  let head := TagHead.ofCode code
  if head.name = "" then .error (.emptyTag span.start.place)
  else match kindOf head.name with
    | some .standalone =>
      .ok { progress with nodes := .tag head .standalone [] span :: progress.nodes }
    | some .block => .ok ⟨[], ⟨head, span, progress.nodes⟩ :: progress.blocks⟩
    | none => takeEnd progress head.name span

/-- Walk over tokens, of which the first has the given index. -/
def walk (kindOf : String → Option TagKind) (progress : Progress) (index : Nat) :
    List Placed → Except Error (List Node)
  | [] =>
    match progress.blocks with
    | [] => .ok progress.nodes.reverse
    | block :: _ => .error (.missingEndTag block.head.name block.span.start.place)
  | ⟨.text s, _⟩ :: rest =>
    walk kindOf { progress with nodes := .text s :: progress.nodes } (index + 1) rest
  | ⟨.outputOpen, first⟩ :: ⟨.code code, middle⟩ :: ⟨.outputClose, last⟩ :: rest =>
    match takeOutput progress code middle.start (first.through last) with
    | .ok next => walk kindOf next (index + 3) rest
    | .error e => .error e
  | ⟨.tagOpen, first⟩ :: ⟨.code code, _⟩ :: ⟨.tagClose, last⟩ :: rest =>
    match takeTag kindOf progress code (first.through last) with
    | .ok next => walk kindOf next (index + 3) rest
    | .error e => .error e
  | _ :: _ => .error (.invalidTokenSequence index)

section Walk

variable (kindOf : String → Option TagKind) (progress : Progress) (index : Nat)

/-- At the end of the tokens no block may be open. -/
theorem walk_nil (nodes : List Node) : walk kindOf ⟨nodes, []⟩ index [] = .ok nodes.reverse := rfl

theorem walk_nil_of_open (nodes : List Node) (block : OpenBlock) (blocks : List OpenBlock) :
    walk kindOf ⟨nodes, block :: blocks⟩ index [] =
      .error (.missingEndTag block.head.name block.span.start.place) := rfl

/-- Literal text becomes a node. -/
theorem walk_text (s : String) (span : Span) (rest : List Placed) :
    walk kindOf progress index (⟨.text s, span⟩ :: rest) =
      walk kindOf { progress with nodes := .text s :: progress.nodes } (index + 1) rest := rfl

/-- An output marker is taken in before the walk goes on. -/
theorem walk_outputMarker (code : String) (first middle last : Span) (rest : List Placed) :
    walk kindOf progress index
        (⟨.outputOpen, first⟩ :: ⟨.code code, middle⟩ :: ⟨.outputClose, last⟩ :: rest) =
      (takeOutput progress code middle.start (first.through last)).bind fun next =>
        walk kindOf next (index + 3) rest := by
  change (match takeOutput progress code middle.start (first.through last) with
    | .ok next => walk kindOf next (index + 3) rest
    | .error e => .error e) = _
  cases takeOutput progress code middle.start (first.through last) <;> rfl

/-- A tag marker is taken in before the walk goes on. -/
theorem walk_tagMarker (code : String) (first middle last : Span) (rest : List Placed) :
    walk kindOf progress index
        (⟨.tagOpen, first⟩ :: ⟨.code code, middle⟩ :: ⟨.tagClose, last⟩ :: rest) =
      (takeTag kindOf progress code (first.through last)).bind fun next =>
        walk kindOf next (index + 3) rest := by
  change (match takeTag kindOf progress code (first.through last) with
    | .ok next => walk kindOf next (index + 3) rest
    | .error e => .error e) = _
  cases takeTag kindOf progress code (first.through last) <;> rfl

end Walk

/-- The nodes that some tokens make up. -/
def ofTokens (kindOf : String → Option TagKind) (tokens : List Placed) :
    Except Error (List Node) :=
  walk kindOf ⟨[], []⟩ 0 tokens

/-- The nodes of a template text. -/
def parse (kindOf : String → Option TagKind) (source : String) : Except Error (List Node) :=
  (Token.ofText source.toList).bind (ofTokens kindOf)

end Node

end Stencil
