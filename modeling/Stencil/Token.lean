import Stencil.Position

/-!
# Tokens

Template text is a sequence of literal text and markers. What stands between the two ends of a
marker is kept as raw code.
-/

namespace Stencil

/-- A token of template text. -/
inductive Token where
  /-- Literal text between markers. -/
  | text (s : String)
  | outputOpen
  | outputClose
  | tagOpen
  | tagClose
  /-- What stands between the two ends of a marker. -/
  | code (s : String)
deriving DecidableEq, Repr

namespace Token

/-- The text that a token carries; markers carry none. -/
def content : Token → String
  | .text s | .code s => s
  | _ => ""

/-- A token as it is written. -/
def written : Token → String
  | .text s | .code s => s
  | .outputOpen => "\x7b\x7b"
  | .outputClose => "\x7d\x7d"
  | .tagOpen => "\x7b%"
  | .tagClose => "%\x7d"

end Token

/-- A token with the range of text it stands for. -/
structure Placed where
  token : Token
  span : Span
deriving DecidableEq, Repr

end Stencil
