/-!
# HTML escaping

The five characters that are significant in HTML text and attribute values are written as
entities; every other character stands for itself.
-/

namespace Stencil.Text

/-- The written form of one character. -/
def htmlEntity (c : Char) : List Char :=
  match c with
  | '&' => ['&', 'a', 'm', 'p', ';']
  | '<' => ['&', 'l', 't', ';']
  | '>' => ['&', 'g', 't', ';']
  | '"' => ['&', 'q', 'u', 'o', 't', ';']
  | '\'' => ['&', '#', '3', '9', ';']
  | c => [c]

/-- Escape a text character by character. -/
def escapeHtml (text : String) : String :=
  String.ofList (text.toList.flatMap htmlEntity)

/-- The characters of an escaped text. -/
@[simp] theorem toList_escapeHtml (text : String) :
    (escapeHtml text).toList = text.toList.flatMap htmlEntity := by
  simp [escapeHtml]

/-- Escaping works on each part of a text alone. -/
theorem escapeHtml_append (a b : String) : escapeHtml (a ++ b) = escapeHtml a ++ escapeHtml b := by
  simp [escapeHtml, String.ofList_append]

/-- The empty text needs no escape. -/
@[simp] theorem escapeHtml_empty : escapeHtml "" = "" := rfl

end Stencil.Text
