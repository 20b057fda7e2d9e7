import Stencil.Error
import Stencil.Text.Quoting
import Stencil.Token

/-!
# From text to tokens

Text is first cut into pieces, the six two-character marks and single characters, from left to
right. A walk over the pieces then knows whether it stands in literal text, in the code of a marker
or in a comment, and emits tokens. A mark that would close a marker does not do so inside a string
literal. Comments leave no token.
-/

namespace Stencil

/-- The three kinds of marker. -/
inductive Marker where
  | output
  | tag
  | comment
deriving DecidableEq, Repr

namespace Marker

/-- The character next to the brace in both ends of a marker. -/
def sign : Marker → Char
  | .output => '\x7b'
  | .tag => '%'
  | .comment => '#'

/-- How a marker begins. -/
def opener : Marker → List Char
  | .output => ['\x7b', '\x7b']
  | .tag => ['\x7b', '%']
  | .comment => ['\x7b', '#']

/-- How a marker ends. -/
def closer : Marker → List Char
  | .output => ['\x7d', '\x7d']
  | .tag => ['%', '\x7d']
  | .comment => ['#', '\x7d']

end Marker

/-- A piece of template text. -/
inductive Piece where
  | opens (marker : Marker)
  | closes (marker : Marker)
  | char (c : Char)
deriving DecidableEq, Repr

namespace Piece

/-- The characters of a piece. -/
def chars : Piece → List Char
  | .opens marker => marker.opener
  | .closes marker => marker.closer
  | .char c => [c]

/-- The mark that two characters form. -/
def mark? : Char → Char → Option Piece
  | '\x7b', '\x7b' => some (.opens .output)
  | '\x7b', '%' => some (.opens .tag)
  | '\x7b', '#' => some (.opens .comment)
  | '\x7d', '\x7d' => some (.closes .output)
  | '%', '\x7d' => some (.closes .tag)
  | '#', '\x7d' => some (.closes .comment)
  | _, _ => none

/-- Cut a text into pieces: at every place a mark if there is one, else one character. -/
def split : List Char → List Piece
  | [] => []
  | [c] => [.char c]
  | c :: d :: rest =>
    match mark? c d with
    | some piece => piece :: split rest
    | none => .char c :: split (d :: rest)

/-- A mark has the characters it was found by. -/
theorem chars_of_mark? {c d : Char} {piece : Piece} (h : mark? c d = some piece) :
    piece.chars = [c, d] := by
  unfold mark? at h
  split at h <;> simp_all <;> subst h <;> rfl

/-- The pieces of a text make it up. -/
theorem flatMap_chars_split (cs : List Char) : (split cs).flatMap chars = cs := by
  fun_induction split cs with
  | case1 => rfl
  | case2 => rfl
  | case3 c d rest piece h ih => simp [chars_of_mark? h, ih]
  | case4 c d rest h ih => simp [chars, ih]

end Piece

namespace Token

/-- Where the walk stands. -/
inductive Mode where
  /-- In literal text: `run` is what was read of it, reversed, and began at `start`. -/
  | text (start : Point) (run : List Char)
  /-- In the code of an output or tag marker that opened at `opened`. -/
  | code (isOutput : Bool) (opened start : Point) (run : List Char) (quoting : Text.Quoting)
  /-- In a comment that opened at `opened`. -/
  | comment (opened : Point)
deriving DecidableEq, Repr

/-- The token for a run of literal text, none if it is empty. -/
def textRun (start : Point) (run : List Char) : List Placed :=
  match run with
  | [] => []
  | _ :: _ => [⟨.text (String.ofList run.reverse), .covering start run.reverse⟩]

/-- The marker with code of a kind. -/
def markerOf (isOutput : Bool) : Marker := if isOutput then .output else .tag

/-- The opening token of a kind. -/
def opening (isOutput : Bool) : Token := if isOutput then .outputOpen else .tagOpen

/-- The closing token of a kind. -/
def closing (isOutput : Bool) : Token := if isOutput then .outputClose else .tagClose

/-- The error for a marker without an end. -/
def unclosed (marker : Marker) (opened : Point) : Error :=
  .unclosedMarker (String.ofList marker.opener) opened.place

/-- The two tokens that end a marker: its code and its closing mark. -/
def codeRun (isOutput : Bool) (start here : Point) (run : List Char) : List Placed :=
  [⟨.code (String.ofList run.reverse), .covering start run.reverse⟩,
    ⟨closing isOutput, .covering here (markerOf isOutput).closer⟩]

/-- Walk over the pieces that begin at `here`. -/
def walk : Mode → Point → List Piece → Except Error (List Placed)
  | .text start run, _, [] => .ok (textRun start run)
  | .code isOutput opened _ _ _, _, [] => .error (unclosed (markerOf isOutput) opened)
  | .comment opened, _, [] => .error (unclosed .comment opened)
  | .text start run, here, piece :: rest =>
    let after := here.advance piece.chars
    match piece with
    | .opens .comment => (walk (.comment here) after rest).map (textRun start run ++ ·)
    | .opens marker =>
      let isOutput := marker == .output
      (walk (.code isOutput here after [] .bare) after rest).map fun tokens =>
        textRun start run ++ ⟨opening isOutput, ⟨here, after⟩⟩ :: tokens
    | _ => walk (.text start (piece.chars.reverse ++ run)) after rest
  | .code isOutput opened start run quoting, here, piece :: rest =>
    let after := here.advance piece.chars
    if piece = .closes (markerOf isOutput) ∧ quoting = .bare then
      (walk (.text after []) after rest).map (codeRun isOutput start here run ++ ·)
    else
      walk (.code isOutput opened start (piece.chars.reverse ++ run) (quoting.run piece.chars))
        after rest
  | .comment opened, here, piece :: rest =>
    let after := here.advance piece.chars
    walk (if piece = .closes .comment then .text after [] else .comment opened) after rest

/-- At the end of a text the run that was read is emitted. -/
theorem walk_text_nil (start here : Point) (run : List Char) :
    walk (.text start run) here [] = .ok (textRun start run) := rfl

/-- At the end of a text no marker may be open. -/
theorem walk_code_nil (isOutput : Bool) (opened start here : Point) (run : List Char)
    (quoting : Text.Quoting) :
    walk (.code isOutput opened start run quoting) here [] =
      .error (unclosed (markerOf isOutput) opened) := rfl

/-- At the end of a text no comment may be open. -/
theorem walk_comment_nil (opened here : Point) :
    walk (.comment opened) here [] = .error (unclosed .comment opened) := rfl

/-- Code goes on up to the mark that closes its marker, outside of quotes. -/
theorem walk_code_cons (isOutput : Bool) (opened start here : Point) (run : List Char)
    (quoting : Text.Quoting) (piece : Piece) (rest : List Piece) :
    walk (.code isOutput opened start run quoting) here (piece :: rest) =
      if piece = .closes (markerOf isOutput) ∧ quoting = .bare then
        (walk (.text (here.advance piece.chars) []) (here.advance piece.chars) rest).map
          (codeRun isOutput start here run ++ ·)
      else
        walk (.code isOutput opened start (piece.chars.reverse ++ run) (quoting.run piece.chars))
          (here.advance piece.chars) rest := rfl

/-- A comment goes on up to the first mark that closes one. -/
theorem walk_comment_cons (opened here : Point) (piece : Piece) (rest : List Piece) :
    walk (.comment opened) here (piece :: rest) =
      walk (if piece = .closes .comment then .text (here.advance piece.chars) []
        else .comment opened) (here.advance piece.chars) rest := rfl

/-- The tokens of a template text. -/
def ofText (source : List Char) : Except Error (List Placed) :=
  walk (.text .origin []) .origin (Piece.split source)

end Token

end Stencil
