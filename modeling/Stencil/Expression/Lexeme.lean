import Stencil.Decimal.Literal

/-!
# Lexemes

The words, numbers, string literals and signs that expressions are made of. Reading takes the
longest lexeme at the front of a text, after spaces, tabs and line ends. Where none starts, the
fault is the longest text there that a lexeme could still begin with, and at least one character.
-/

namespace Stencil

/-- A lexeme of an expression. -/
inductive Lexeme where
  /-- A name or a word with a meaning of its own. -/
  | word (s : String)
  | number (literal : Decimal.Literal)
  /-- A string literal: its quote, and what stands between the quotes as written. -/
  | quoted (delimiter : Char) (body : List Char)
  | dot
  | pipe
  | parenOpen
  | parenClose
  | bracketOpen
  | bracketClose
  | comma
deriving DecidableEq, Repr

namespace Lexeme

/-- A lexeme as it is written. -/
def written : Lexeme → String
  | .word s => s
  | .number literal => String.ofList literal.text
  | .quoted delimiter body => String.ofList (delimiter :: body ++ [delimiter])
  | .dot => "."
  | .pipe => "|"
  | .parenOpen => "("
  | .parenClose => ")"
  | .bracketOpen => "["
  | .bracketClose => "]"
  | .comma => ","

/-- The characters between lexemes. -/
def isSpace (c : Char) : Bool := c == ' ' || c == '\t' || c == '\r' || c == '\n'

/-- The characters that begin a word. -/
def isWordStart (c : Char) : Bool := c.isAlpha || c == '_' || c == '$'

/-- The characters that go on with a word. -/
def isWordPart (c : Char) : Bool := isWordStart c || c.isDigit

/-- The lexeme that is one sign. -/
def sign? : Char → Option Lexeme
  | '.' => some .dot
  | '|' => some .pipe
  | '(' => some .parenOpen
  | ')' => some .parenClose
  | '[' => some .bracketOpen
  | ']' => some .bracketClose
  | ',' => some .comma
  | _ => none

/-- The body of a string literal after its opening quote, and the rest after its closing quote. If
there is no closing quote, what a literal could begin with. A backslash goes with the character
after it, which may be anything but a line feed. -/
def takeBody (delimiter : Char) : List Char → Except (List Char) (List Char × List Char)
  | [] => .error []
  | ['\\'] => .error ['\\']
  | '\\' :: c :: rest =>
    if c = '\n' then .error ['\\']
    else match takeBody delimiter rest with
      | .ok (body, after) => .ok ('\\' :: c :: body, after)
      | .error seen => .error ('\\' :: c :: seen)
  | c :: rest =>
    if c = delimiter then .ok ([], rest)
    else match takeBody delimiter rest with
      | .ok (body, after) => .ok (c :: body, after)
      | .error seen => .error (c :: seen)

/-- The lexeme that begins with a character, and the rest; or the text at fault. -/
def take (c : Char) (rest : List Char) : Except (List Char) (Lexeme × List Char) :=
  if isWordStart c then
    .ok (.word (String.ofList (c :: rest.takeWhile isWordPart)), rest.dropWhile isWordPart)
  else if c = '"' ∨ c = '\'' then
    match takeBody c rest with
    | .ok (body, after) => .ok (.quoted c body, after)
    | .error seen => .error (c :: seen)
  else match Decimal.takeLiteral? (c :: rest) with
    | some (literal, after) => .ok (.number literal, after)
    | none => match sign? c with
      | some lexeme => .ok (lexeme, rest)
      | none => .error [c]

private theorem takeBody_length {delimiter : Char} {cs body after : List Char}
    (h : takeBody delimiter cs = .ok (body, after)) : after.length < cs.length := by
  fun_induction takeBody delimiter cs generalizing body after with
  | case1 => simp at h
  | case2 => simp at h
  | case3 => simp at h
  | case4 c rest hc body' after' hb ih =>
    simp only [Except.ok.injEq, Prod.mk.injEq] at h
    have := ih hb
    simp [← h.2]
    omega
  | case5 => simp at h
  | case6 => simp_all
  | case7 c rest h1 h2 h3 body' after' hb ih =>
    simp only [Except.ok.injEq, Prod.mk.injEq] at h
    have := ih hb
    simp [← h.2]
    omega
  | case8 => simp at h

private theorem dropWhile_length_le (p : Char → Bool) (cs : List Char) :
    (cs.dropWhile p).length ≤ cs.length :=
  (List.dropWhile_sublist p).length_le

private theorem takeFraction_length (cs : List Char) :
    (Decimal.takeFraction cs).2.length ≤ cs.length := by
  have := congrArg List.length (Decimal.takeFraction_append cs)
  simp only [List.length_append] at this
  omega

private theorem takePower_length (cs : List Char) :
    (Decimal.takePower cs).2.length ≤ cs.length := by
  have := congrArg List.length (Decimal.takePower_append cs)
  simp only [List.length_append] at this
  omega

private theorem takeUnsigned_length (negative : Bool) {c : Char} (h : c.isDigit)
    (rest : List Char) :
    (Decimal.takeUnsigned negative (c :: rest)).2.length ≤ rest.length := by
  have h1 : ((c :: rest).dropWhile Char.isDigit).length ≤ rest.length := by
    rw [List.dropWhile_cons_of_pos h]
    exact dropWhile_length_le _ _
  have h2 := takeFraction_length ((c :: rest).dropWhile Char.isDigit)
  have h3 := takePower_length (Decimal.takeFraction ((c :: rest).dropWhile Char.isDigit)).2
  simp only [Decimal.takeUnsigned]
  omega

private theorem takeLiteral_length {c : Char} {rest after : List Char} {l : Decimal.Literal}
    (h : Decimal.takeLiteral? (c :: rest) = some (l, after)) : after.length ≤ rest.length := by
  unfold Decimal.takeLiteral? at h
  split at h
  · rename_i d tail heq
    split at h
    · rename_i hd
      have := takeUnsigned_length true hd tail
      rw [Option.some.inj h] at this
      simp only [List.cons.injEq] at heq
      simp only [heq.2, List.length_cons]
      exact Nat.le_succ_of_le this
    · simp at h
  · rename_i d tail _ heq
    split at h
    · rename_i hd
      have := takeUnsigned_length false hd tail
      rw [Option.some.inj h] at this
      simp only [List.cons.injEq] at heq
      simpa [heq.2] using this
    · simp at h
  · simp at h

/-- A lexeme takes at least the character it begins with. -/
theorem length_of_take {c : Char} {rest after : List Char} {lexeme : Lexeme}
    (h : take c rest = .ok (lexeme, after)) : after.length ≤ rest.length := by
  unfold take at h
  split at h
  · simp only [Except.ok.injEq, Prod.mk.injEq] at h
    rw [← h.2]
    exact dropWhile_length_le _ _
  · split at h
    · split at h
      · rename_i hb
        simp only [Except.ok.injEq, Prod.mk.injEq] at h
        have := takeBody_length hb
        rw [← h.2]
        omega
      · simp at h
    · split at h
      · rename_i hl
        simp only [Except.ok.injEq, Prod.mk.injEq] at h
        rw [← h.2]
        exact takeLiteral_length hl
      · split at h
        · simp only [Except.ok.injEq, Prod.mk.injEq] at h
          exact h.2 ▸ Nat.le_refl _
        · simp at h

/-- The lexemes of a text, or the first text at fault. -/
def ofText (cs : List Char) : Except (List Char) (List Lexeme) :=
  match cs with
  | [] => .ok []
  | c :: rest =>
    if isSpace c then ofText rest
    else match _h : take c rest with
      | .ok (lexeme, after) => (ofText after).map (lexeme :: ·)
      | .error seen => .error seen
termination_by cs.length
decreasing_by
  · simp
  · have := length_of_take _h
    simp
    omega

end Lexeme

end Stencil
