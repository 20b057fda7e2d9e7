import Stencil.Text.Hex

/-!
# String literals

The text that a string literal denotes. A literal without backslashes denotes what stands between
its quotes. In any other the escapes are resolved by one reader for double-quoted text; a
single-quoted literal is first put into double quotes, where its double quotes get a backslash.
-/

namespace Stencil

/-- Why a number between braces is no character. -/
inductive CodePointError where
  /-- There is no opening brace. -/
  | noBrace
  /-- The digits are not hexadecimal. -/
  | invalidDigit (digits : String)
  /-- There are no digits. -/
  | noDigits
  /-- The number does not fit in 32 bits. -/
  | tooLarge (digits : String)
  /-- No character has this number. -/
  | noCharacter (code : Nat)
deriving DecidableEq, Repr

/-- The message for a number that is no character. -/
def CodePointError.message : CodePointError → String
  | .noBrace => "expected '\x7b' character in unicode escape"
  | .invalidDigit digits => s!"could not parse {digits} as u32 hex: invalid digit found in string"
  | .noDigits => "could not parse  as u32 hex: cannot parse integer from empty string"
  | .tooLarge digits =>
    s!"could not parse {digits} as u32 hex: number too large to fit in target type"
  | .noCharacter code => s!"could not parse {code} as a unicode char"

/-- Why a string literal cannot be read; `index` counts the characters before the one after the
backslash. -/
inductive EscapeError where
  /-- A backslash stands before a character that it cannot escape. -/
  | invalid (escape : String) (index : Nat)
  /-- A numeric escape fails. -/
  | codePoint (cause : CodePointError) (index : Nat)
deriving DecidableEq, Repr

/-- The message for a literal that cannot be read, where `whole` is the text in double quotes. -/
def EscapeError.message (whole : String) : EscapeError → String
  | .invalid escape index => s!"invalid escape {escape} at {index} in {whole}"
  | .codePoint cause index => s!"\\u could not be parsed at {index} in {whole}: {cause.message}"

namespace Escape

/-- The numbers that do not fit in 32 bits begin here. -/
def codeLimit : Nat := 0x100000000

/-- Read hexadecimal digits into a 32-bit number that starts as `n`. -/
def hexNumber (digits : String) (n : Nat) : List Char → Except CodePointError Nat
  | [] => .ok n
  | c :: rest =>
    match Text.hexValue? c with
    | none => .error (.invalidDigit digits)
    | some d =>
      if 16 * n + d < codeLimit then hexNumber digits (16 * n + d) rest else .error (.tooLarge digits)

/-- The character whose number stands between braces. A plus sign may precede the digits. -/
def character (digits : List Char) : Except CodePointError Char := do
  let text := String.ofList digits
  let n ← match digits with
    | [] => .error .noDigits
    | ['+'] => .error (.invalidDigit text)
    | '+' :: rest => hexNumber text 0 rest
    | cs => hexNumber text 0 cs
  if n.isValidChar then .ok (Char.ofNat n) else .error (.noCharacter n)

/-- The character that one after a backslash stands for. -/
def simple? : Char → Option Char
  | 'a' => some '\x07'
  | 'b' => some '\x08'
  | 'v' => some '\x0b'
  | 'f' => some '\x0c'
  | 'n' => some '\n'
  | 'r' => some '\r'
  | 't' => some '\t'
  | 'e' => some '\x1b'
  | 'E' => some '\x1b'
  | '\\' => some '\\'
  | '\'' => some '\''
  | '"' => some '"'
  | '$' => some '$'
  | '\x60' => some '\x60'
  | ' ' => some ' '
  | _ => none

/-- Where the reader stands. -/
inductive Mode where
  /-- Outside of quotes, where characters stand for themselves. -/
  | bare
  /-- Between single quotes, where characters stand for themselves. -/
  | single
  /-- Between double quotes, where a backslash escapes. -/
  | double
  /-- Between the braces of a numeric escape, whose letter has the index `opened`; `digits` are
  reversed. -/
  | braces (opened : Nat) (digits : List Char)
deriving DecidableEq, Repr

/-- Resolve the escapes of a text whose first character has the given index. -/
def resolve : Mode → Nat → List Char → Except EscapeError (List Char)
  | .braces opened digits, _, [] =>
    match character digits.reverse with
    | .ok c => .ok [c]
    | .error e => .error (.codePoint e opened)
  | _, _, [] => .ok []
  | .bare, i, c :: rest =>
    if c = '\'' then resolve .single (i + 1) rest
    else if c = '"' then resolve .double (i + 1) rest
    else (resolve .bare (i + 1) rest).map (c :: ·)
  | .single, i, c :: rest =>
    if c = '\'' then resolve .bare (i + 1) rest
    else (resolve .single (i + 1) rest).map (c :: ·)
  | .braces opened digits, i, c :: rest =>
    if c = '\x7d' then
      match character digits.reverse with
      | .ok d => (resolve .double (i + 1) rest).map (d :: ·)
      | .error e => .error (.codePoint e opened)
    else resolve (.braces opened (c :: digits)) (i + 1) rest
  | .double, i, ['\\'] => .error (.invalid "\\" i)
  | .double, i, '\\' :: 'u' :: rest =>
    match rest with
    | '\x7b' :: more => resolve (.braces (i + 1) []) (i + 3) more
    | _ => .error (.codePoint .noBrace (i + 1))
  | .double, i, '\\' :: c :: rest =>
    match simple? c with
    | some d => (resolve .double (i + 2) rest).map (d :: ·)
    | none => .error (.invalid (String.ofList ['\\', c]) (i + 1))
  | .double, i, c :: rest =>
    if c = '"' then resolve .bare (i + 1) rest
    else (resolve .double (i + 1) rest).map (c :: ·)

/-- Outside of quotes characters stand for themselves up to the next quote. -/
theorem resolve_bare_cons (i : Nat) (c : Char) (rest : List Char) :
    resolve .bare i (c :: rest) =
      if c = '\'' then resolve .single (i + 1) rest
      else if c = '"' then resolve .double (i + 1) rest
      else (resolve .bare (i + 1) rest).map (c :: ·) := rfl

/-- Between single quotes characters stand for themselves up to the next single quote. -/
theorem resolve_single_cons (i : Nat) (c : Char) (rest : List Char) :
    resolve .single i (c :: rest) =
      if c = '\'' then resolve .bare (i + 1) rest
      else (resolve .single (i + 1) rest).map (c :: ·) := rfl

/-- Take the backslash away before every occurrence of a character. -/
def unescape (q : Char) : List Char → List Char
  | [] => []
  | [c] => [c]
  | c :: d :: rest => if c = '\\' ∧ d = q then q :: unescape q rest else c :: unescape q (d :: rest)

/-- Two characters decide whether the first one stays. -/
theorem unescape_cons_cons (q c d : Char) (rest : List Char) :
    unescape q (c :: d :: rest) =
      if c = '\\' ∧ d = q then q :: unescape q rest else c :: unescape q (d :: rest) := rfl

/-- Put a backslash before every double quote. -/
def escapeQuotes (cs : List Char) : List Char :=
  cs.flatMap fun c => if c = '"' then ['\\', '"'] else [c]

/-- The body of a literal in double quotes. -/
def requote (delimiter : Char) (body : List Char) : List Char :=
  if delimiter = '"' then '"' :: body ++ ['"']
  else '"' :: escapeQuotes (unescape '"' (unescape '\'' body)) ++ ['"']

/-- The text that a literal denotes, or the message why it cannot be read. -/
def denote (delimiter : Char) (body : List Char) : Except String (List Char) :=
  if '\\' ∉ body then .ok body
  else
    let quoted := requote delimiter body
    match resolve .bare 0 quoted with
    | .ok text => .ok text
    | .error e =>
      let slice := String.ofList (delimiter :: body ++ [delimiter])
      .error s!"invalid string literal {slice}: {e.message (String.ofList quoted)}"

end Escape

end Stencil
