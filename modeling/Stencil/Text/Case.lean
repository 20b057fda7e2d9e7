import Stencil.Text.Blank
import Stencil.Text.Case.Table

/-!
# Upper, lower and title case

Full case mapping: a character may become several. Lower case of a whole text writes a capital
sigma at the end of a word in its final form; mapping character by character does not look around.
-/

namespace Stencil.Text

namespace Case

/-- The characters a code point maps to: a full mapping, else a single one, else itself. -/
def map (full : List (Nat × List Nat)) (single : List Run) (c : Char) : List Char :=
  match full.lookup c.toNat with
  | some codes => codes.map Char.ofNat
  | none => [(lookUp single c.toNat).elim c Char.ofNat]

/-- Whether a character has a case and is not passed over by case detection. -/
def isCased (c : Char) : Bool := inRanges casedRanges c.toNat

/-- Whether case detection passes over a character. -/
def isIgnorable (c : Char) : Bool := inRanges ignorableRanges c.toNat

/-- Whether the first character that is not passed over has a case. -/
def startsCased (cs : List Char) : Bool :=
  match cs.dropWhile isIgnorable with
  | [] => false
  | c :: _ => isCased c

end Case

/-- The upper case form of one character. -/
def upperChar (c : Char) : List Char := Case.map Case.upperFull Case.upperRuns c

/-- The lower case form of one character, whatever stands around it. -/
def lowerChar (c : Char) : List Char := Case.map Case.lowerFull Case.lowerRuns c

/-- Upper case, character by character. -/
def upper (cs : List Char) : List Char := cs.flatMap upperChar

/-- Lower case of the characters that follow `before`, which is reversed: a capital sigma is
final if a letter precedes it and none follows it, passing over what case detection ignores. -/
def lowerAfter (before : List Char) : List Char → List Char
  | [] => []
  | c :: rest =>
    (if c = 'Σ' then
      if Case.startsCased before && !Case.startsCased rest then ['ς'] else ['σ']
    else lowerChar c) ++ lowerAfter (c :: before) rest

/-- Lower case of a text. -/
def lower (cs : List Char) : List Char := lowerAfter [] cs

/-- A word with its first character in upper case and all others in lower case. -/
def capitalize : List Char → List Char
  | [] => []
  | c :: rest => upperChar c ++ rest.flatMap lowerChar

/-- Whether a character separates the words of a title. -/
def isTitleBreak (c : Char) : Bool := isBlank c || c == '-'

/-- Title case of a text whose last word so far is `word`, reversed. -/
def titleAfter (word : List Char) : List Char → List Char
  | [] => capitalize word.reverse
  | c :: rest =>
    if isTitleBreak c then capitalize word.reverse ++ c :: titleAfter [] rest
    else titleAfter (c :: word) rest

/-- Every word of a text capitalized; words end at blanks and hyphens, which stay. -/
def title (cs : List Char) : List Char := titleAfter [] cs

/-- Upper case works on each part of a text alone. -/
theorem upper_append (a b : List Char) : upper (a ++ b) = upper a ++ upper b := by
  simp [upper]

end Stencil.Text
