/-!
# Blank characters

The class of characters that separate words in tags, tag arguments and titles, and the two
cuts made with it: trimming both ends of a text and taking its first word.
-/

namespace Stencil.Text

/-- The characters with Unicode's `White_Space` property. -/
def isBlank (c : Char) : Bool :=
  let n := c.toNat
  (9 ≤ n && n ≤ 13) || n == 0x20 || n == 0x85 || n == 0xA0 || n == 0x1680 ||
    (0x2000 ≤ n && n ≤ 0x200A) || n == 0x2028 || n == 0x2029 || n == 0x202F ||
    n == 0x205F || n == 0x3000

/-- Drop the blanks at the front. -/
def trimStart (cs : List Char) : List Char := cs.dropWhile isBlank

/-- Drop the blanks at the end. -/
def trimEnd (cs : List Char) : List Char := (trimStart cs.reverse).reverse

/-- Drop the blanks at both ends. -/
def trim (cs : List Char) : List Char := trimEnd (trimStart cs)

/-- The characters before the first blank. -/
def firstWord (cs : List Char) : List Char := cs.takeWhile fun c => !isBlank c

/-- What follows the first word, trimmed. -/
def afterFirstWord (cs : List Char) : List Char := trim (cs.dropWhile fun c => !isBlank c)

/-- Every character that ASCII counts as white space is a blank. -/
theorem isBlank_of_isWhitespace {c : Char} (h : c.isWhitespace) : isBlank c := by
  simp only [Char.isWhitespace, Bool.or_eq_true, decide_eq_true_eq] at h
  rcases h with ((rfl | rfl) | rfl) | rfl <;> decide

/-- A first word holds no blank. -/
theorem isBlank_of_mem_firstWord {cs : List Char} {c : Char} (h : c ∈ firstWord cs) :
    isBlank c = false := by
  induction cs with
  | nil => simp [firstWord] at h
  | cons d rest ih =>
    simp only [firstWord, List.takeWhile_cons] at h ih
    split at h
    · rename_i hd
      rcases List.mem_cons.1 h with rfl | h
      · simpa using hd
      · exact ih h
    · simp at h

/-- The first word and the untrimmed rest make up the text. -/
theorem firstWord_append (cs : List Char) :
    firstWord cs ++ cs.dropWhile (fun c => !isBlank c) = cs :=
  List.takeWhile_append_dropWhile

/-- A trimmed text starts with no blank. -/
theorem head?_trimStart (cs : List Char) (c : Char) (h : (trimStart cs).head? = some c) :
    isBlank c = false := by
  induction cs with
  | nil => simp [trimStart] at h
  | cons d rest ih =>
    simp only [trimStart, List.dropWhile_cons] at h ih
    split at h
    · exact ih h
    · rename_i hd
      simp only [List.head?_cons, Option.some.injEq] at h
      subst h
      simpa using hd

end Stencil.Text
