import Stencil.Error
import Stencil.Expression
import Stencil.Expression.Escape
import Stencil.Expression.Lexeme

/-!
# Reading expressions

An expression is a value followed by filter calls, each after a bar. A value is a literal or a path:
a name with attributes after points and keys in brackets. A filter call is a name, with values in
parentheses or without.

Every reader takes lexemes from the front of a list and hands on a shorter rest.
-/

namespace Stencil

/-- Why a text is no expression. -/
inductive SyntaxFault where
  /-- No lexeme starts at this text. -/
  | unexpectedText (text : String)
  /-- A lexeme cannot stand where it does. -/
  | unexpected (lexeme : Lexeme)
  /-- The text ends where something is expected. -/
  | endsBefore (wanted : String)
  /-- Something else stands where one thing is expected. -/
  | insteadOf (wanted : String) (found : Lexeme)
  /-- A number is too large. -/
  | number (text : String)
  /-- A string literal cannot be read. -/
  | literal (message : String)
deriving DecidableEq, Repr

/-- The message for a text that is no expression. -/
def SyntaxFault.message : SyntaxFault → String
  | .unexpectedText text => s!"unexpected character `{text}`"
  | .unexpected lexeme => s!"unexpected `{lexeme.written}`"
  | .endsBefore wanted => s!"expected {wanted}, found end of expression"
  | .insteadOf wanted found => s!"expected {wanted}, found `{found.written}`"
  | .number text => s!"invalid number `{text}`"
  | .literal message => message

/-- The error for a text that is no expression, where an expression is needed at a place. -/
def SyntaxFault.error (fault : SyntaxFault) (place : Place) : Error :=
  .invalidExpression fault.message place

namespace Expression

/-- The value of a word with a meaning of its own. -/
def keyword? (word : String) : Option Value :=
  if word = "true" then some (.bool true)
  else if word = "false" then some (.bool false)
  else if word = "null" ∨ word = "none" then some .null
  else none

/-- The value of a number literal: a whole one that fits in a signed 64-bit word is an integer. -/
def numberValue (literal : Decimal.Literal) : Except SyntaxFault Value :=
  match Number.ofLiteral? Number.isSigned literal with
  | some n => .ok (.number n)
  | none => .error (.number (String.ofList literal.text))

/-- The value of a string literal. -/
def stringValue (delimiter : Char) (body : List Char) : Except SyntaxFault Value :=
  match Escape.denote delimiter body with
  | .ok text => .ok (.string (String.ofList text))
  | .error message => .error (.literal message)

/-- What is left of some lexemes, at most all of them. -/
abbrev Rest (ls : List Lexeme) := { rest : List Lexeme // rest.length ≤ ls.length }

mutual

/-- Read a value. -/
def value : (ls : List Lexeme) → Except SyntaxFault (Expr × { rest : List Lexeme //
    rest.length < ls.length })
  | [] => .error (.endsBefore "a value")
  | .quoted delimiter body :: rest =>
    (stringValue delimiter body).map fun v => (.literal v, ⟨rest, by simp⟩)
  | .number literal :: rest =>
    (numberValue literal).map fun v => (.literal v, ⟨rest, by simp⟩)
  | .word s :: rest =>
    match keyword? s with
    | some v => .ok (.literal v, ⟨rest, by simp⟩)
    | none =>
      match path (.named s) rest with
      | .ok (e, after) => .ok (e, ⟨after.1, by have := after.2; simp only [List.length_cons]; omega⟩)
      | .error fault => .error fault
  | lexeme :: _ => .error (.unexpected lexeme)
termination_by ls => ls.length

/-- Read the attributes and keys that follow a path. -/
def path (base : Expr) : (ls : List Lexeme) → Except SyntaxFault (Expr × Rest ls)
  | .dot :: .word s :: rest =>
    match path (.member base s) rest with
    | .ok (e, after) => .ok (e, ⟨after.1, by have := after.2; simp only [List.length_cons]; omega⟩)
    | .error fault => .error fault
  | .dot :: lexeme :: _ => .error (.insteadOf "an attribute name" lexeme)
  | [.dot] => .error (.endsBefore "an attribute name")
  | .bracketOpen :: rest =>
    match value rest with
    | .error fault => .error fault
    | .ok (_, ⟨[], _⟩) => .error (.endsBefore "`]`")
    | .ok (key, ⟨.bracketClose :: more, h⟩) =>
      match path (.index base key) more with
      | .ok (e, after) =>
        .ok (e, ⟨after.1, by have := after.2; simp only [List.length_cons] at h ⊢; omega⟩)
      | .error fault => .error fault
    | .ok (_, ⟨lexeme :: _, _⟩) => .error (.insteadOf "`]`" lexeme)
  | ls => .ok (base, ⟨ls, Nat.le_refl _⟩)
termination_by ls => ls.length
decreasing_by
  all_goals simp only [List.length_cons] at *
  all_goals omega

end

/-- Read the arguments of a filter call, after its opening parenthesis. -/
def arguments (ls : List Lexeme) : Except SyntaxFault (List Expr × Rest ls) :=
  match value ls with
  | .error fault => .error fault
  | .ok (e, ⟨.comma :: rest, h⟩) =>
    match arguments rest with
    | .error fault => .error fault
    | .ok (es, after) =>
      .ok (e :: es, ⟨after.1, by have := after.2; simp only [List.length_cons] at h; omega⟩)
  | .ok (e, ⟨.parenClose :: rest, h⟩) =>
    .ok ([e], ⟨rest, by simp only [List.length_cons] at h; omega⟩)
  | .ok (_, ⟨[], _⟩) => .error (.endsBefore "`,` or `)`")
  | .ok (_, ⟨lexeme :: _, _⟩) => .error (.insteadOf "`,` or `)`" lexeme)
termination_by ls.length
decreasing_by
  simp only [List.length_cons] at h
  omega

/-- Read a filter call. -/
def call : (ls : List Lexeme) → Except SyntaxFault (FilterCall × { rest : List Lexeme //
    rest.length < ls.length })
  | .word name :: .parenOpen :: .parenClose :: rest =>
    .ok (⟨name, []⟩, ⟨rest, by simp only [List.length_cons]; omega⟩)
  | .word name :: .parenOpen :: rest =>
    match arguments rest with
    | .ok (es, after) =>
      .ok (⟨name, es⟩, ⟨after.1, by have := after.2; simp only [List.length_cons]; omega⟩)
    | .error fault => .error fault
  | .word name :: rest => .ok (⟨name, []⟩, ⟨rest, by simp⟩)
  | lexeme :: _ => .error (.insteadOf "a filter name" lexeme)
  | [] => .error (.endsBefore "a filter name")

/-- Read filter calls, each after a bar, up to the end. -/
def calls : List Lexeme → Except SyntaxFault (List FilterCall)
  | [] => .ok []
  | .pipe :: rest =>
    match call rest with
    | .error fault => .error fault
    | .ok (c, ⟨after, _h⟩) => (calls after).map (c :: ·)
  | lexeme :: _ => .error (.unexpected lexeme)
termination_by ls => ls.length
decreasing_by
  simp only [List.length_cons]
  omega

/-- Read a whole expression. -/
def ofLexemes (ls : List Lexeme) : Except SyntaxFault Expression :=
  match value ls with
  | .error fault => .error fault
  | .ok (base, rest) => (calls rest.1).map fun filters => ⟨base, filters⟩

/-- Read a whole filter chain. -/
def chainOfLexemes (ls : List Lexeme) : Except SyntaxFault (List FilterCall) :=
  match call ls with
  | .error fault => .error fault
  | .ok (first, rest) => (calls rest.1).map (first :: ·)

/-- The lexemes of a text. -/
def lexemes (text : String) : Except SyntaxFault (List Lexeme) :=
  match Lexeme.ofText text.toList with
  | .ok ls => .ok ls
  | .error seen => .error (.unexpectedText (String.ofList seen))

/-- The expression that a text is. -/
def parse (text : String) : Except SyntaxFault Expression :=
  (lexemes text).bind ofLexemes

/-- The filter chain that a text is, such as `upper | replace("a", "b")`. -/
def parseChain (text : String) : Except SyntaxFault (List FilterCall) :=
  (lexemes text).bind chainOfLexemes

end Expression

end Stencil
