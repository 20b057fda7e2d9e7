import Stencil.Text.Hex

/-!
# Settings documents

The part of TOML in which settings are written: lines with a key, an equals sign and a value, where
a value is a truth value, a string or an array of strings. Strings are basic or literal, on one line
or on several. A document that holds anything else is none.
-/

namespace Stencil.Settings

/-- A value in a settings document. -/
inductive Datum where
  | flag (b : Bool)
  | text (s : String)
  | texts (items : List String)
deriving DecidableEq, Repr

namespace Document

/-- Blanks within a line. -/
def isSpace (c : Char) : Bool := c == ' ' || c == '\t'

/-- The characters of a key without quotes. -/
def isKeyPart (c : Char) : Bool := c.isAlphanum || c == '_' || c == '-'

/-- The characters that may stand in comments and, as themselves, in strings: all but the control
characters other than the tab. -/
def isPrintable (c : Char) : Bool := c == '\t' || (0x20 ≤ c.toNat && c.toNat ≠ 0x7F)

/-- Drop blanks. -/
def skipSpace (cs : List Char) : List Char := cs.dropWhile isSpace

/-- What follows a line end. -/
def lineEnd? : List Char → Option (List Char)
  | '\n' :: rest => some rest
  | '\r' :: '\n' :: rest => some rest
  | _ => none

/-- Drop a comment, if there is one. -/
def skipComment : List Char → List Char
  | '#' :: rest => rest.dropWhile isPrintable
  | cs => cs

/-- Drop blanks, comments and line ends; `fuel` bounds the number of lines. -/
def skipLines : Nat → List Char → List Char
  | 0, cs => cs
  | fuel + 1, cs =>
    let after := skipComment (skipSpace cs)
    match lineEnd? after with
    | some rest => skipLines fuel rest
    | none => after

/-- The character whose number some hexadecimal digits denote. -/
def character? (digits : List Char) : Option Char := do
  let n ← digits.foldlM (fun n c => (Text.hexValue? c).map (16 * n + ·)) 0
  if n.isValidChar then some (Char.ofNat n) else none

/-- The character that a letter after a backslash stands for. -/
def escape? : Char → Option Char
  | 'b' => some '\x08'
  | 't' => some '\t'
  | 'n' => some '\n'
  | 'f' => some '\x0c'
  | 'r' => some '\r'
  | 'e' => some '\x1b'
  | '"' => some '"'
  | '\\' => some '\\'
  | _ => none

/-- Read a basic string after its quote; `read` is reversed. -/
def basic (read : List Char) : List Char → Option (List Char × List Char)
  | [] => none
  | '"' :: rest => some (read.reverse, rest)
  | '\\' :: 'x' :: a :: b :: rest => do basic ((← character? [a, b]) :: read) rest
  | '\\' :: 'u' :: a :: b :: c :: d :: rest => do
    basic ((← character? [a, b, c, d]) :: read) rest
  | '\\' :: 'U' :: a :: b :: c :: d :: e :: f :: g :: h :: rest => do
    basic ((← character? [a, b, c, d, e, f, g, h]) :: read) rest
  | '\\' :: c :: rest => do basic ((← escape? c) :: read) rest
  | c :: rest => if isPrintable c then basic (c :: read) rest else none

/-- Read a literal string after its quote. -/
def literal (read : List Char) : List Char → Option (List Char × List Char)
  | [] => none
  | '\'' :: rest => some (read.reverse, rest)
  | c :: rest => if isPrintable c then literal (c :: read) rest else none

/-- The end of a string on several lines: three quotes, before which up to two more belong to the
string. -/
def blockEnd? (q : Char) (read : List Char) : List Char → Option (List Char × List Char)
  | a :: b :: c :: d :: e :: rest =>
    if a = q ∧ b = q ∧ c = q then
      if d = q ∧ e = q then some ((q :: q :: read).reverse, rest)
      else if d = q then some ((q :: read).reverse, e :: rest)
      else some (read.reverse, d :: e :: rest)
    else none
  | [a, b, c, d] =>
    if a = q ∧ b = q ∧ c = q then
      if d = q then some ((q :: read).reverse, []) else some (read.reverse, [d])
    else none
  | [a, b, c] => if a = q ∧ b = q ∧ c = q then some (read.reverse, []) else none
  | _ => none

/-- Read a literal string on several lines after its three quotes. -/
def literalBlock (read : List Char) : List Char → Option (List Char × List Char)
  | [] => none
  | '\r' :: '\n' :: rest => literalBlock ('\n' :: '\r' :: read) rest
  | c :: rest =>
    match blockEnd? '\'' read (c :: rest) with
    | some found => some found
    | none => if isPrintable c ∨ c = '\n' then literalBlock (c :: read) rest else none

/-- How a basic string on several lines goes on. -/
inductive BlockMode where
  | plain
  /-- After a backslash at the end of a line, which drops all blanks and line ends that follow;
  `seen` tells that the line has ended. -/
  | dropping (seen : Bool)
deriving DecidableEq, Repr

/-- Read a basic string on several lines after its three quotes. -/
def basicBlock (read : List Char) : BlockMode → List Char → Option (List Char × List Char)
  | _, [] => none
  | mode, '\r' :: '\n' :: rest =>
    match mode with
    | .plain => basicBlock ('\n' :: '\r' :: read) .plain rest
    | .dropping _ => basicBlock read (.dropping true) rest
  | mode, '\n' :: rest =>
    match mode with
    | .plain => basicBlock ('\n' :: read) .plain rest
    | .dropping _ => basicBlock read (.dropping true) rest
  | mode, '\\' :: 'x' :: a :: b :: rest => do
    if mode = .dropping false then none
    else basicBlock ((← character? [a, b]) :: read) .plain rest
  | mode, '\\' :: 'u' :: a :: b :: c :: d :: rest => do
    if mode = .dropping false then none
    else basicBlock ((← character? [a, b, c, d]) :: read) .plain rest
  | mode, '\\' :: 'U' :: a :: b :: c :: d :: e :: f :: g :: h :: rest => do
    if mode = .dropping false then none
    else basicBlock ((← character? [a, b, c, d, e, f, g, h]) :: read) .plain rest
  | mode, '\\' :: c :: rest => do
    if mode = .dropping false then none
    else if isSpace c then basicBlock read (.dropping false) rest
    else if c = '\n' then basicBlock read (.dropping true) rest
    else if c = '\r' ∧ rest.head? = some '\n' then basicBlock read (.dropping false) rest
    else basicBlock ((← escape? c) :: read) .plain rest
  | mode, c :: rest =>
    if mode ≠ .plain ∧ isSpace c then basicBlock read mode rest
    else if mode = .dropping false then none
    else match blockEnd? '"' read (c :: rest) with
      | some found => some found
      | none => if isPrintable c then basicBlock (c :: read) .plain rest else none

/-- Drop the line end right after the opening quotes of a string on several lines. -/
def skipFirstLineEnd (cs : List Char) : List Char := (lineEnd? cs).getD cs

/-- Read a string on one line. -/
def lineString : List Char → Option (List Char × List Char)
  | '"' :: rest => basic [] rest
  | '\'' :: rest => literal [] rest
  | _ => none

/-- Read a string. -/
def string (cs : List Char) : Option (String × List Char) :=
  let found := match cs with
    | '"' :: '"' :: '"' :: rest => basicBlock [] .plain (skipFirstLineEnd rest)
    | '\'' :: '\'' :: '\'' :: rest => literalBlock [] (skipFirstLineEnd rest)
    | _ => lineString cs
  found.map fun (s, rest) => (String.ofList s, rest)

/-- Read the items of an array after its bracket or a comma; `read` is reversed. -/
def items (read : List String) : Nat → List Char → Option (List String × List Char)
  | 0, _ => none
  | fuel + 1, cs =>
    match skipLines cs.length cs with
    | ']' :: rest => some (read.reverse, rest)
    | text =>
      match string text with
      | none => none
      | some (s, after) =>
        match skipLines after.length after with
        | ',' :: rest => items (s :: read) fuel rest
        | ']' :: rest => some ((s :: read).reverse, rest)
        | _ => none

/-- Read a value. -/
def datum (cs : List Char) : Option (Datum × List Char) :=
  match cs with
  | 't' :: 'r' :: 'u' :: 'e' :: rest => some (.flag true, rest)
  | 'f' :: 'a' :: 'l' :: 's' :: 'e' :: rest => some (.flag false, rest)
  | '[' :: rest => (items [] (rest.length + 1) rest).map fun (ss, after) => (.texts ss, after)
  | _ => (string cs).map fun (s, rest) => (.text s, rest)

/-- Read a key. -/
def key (cs : List Char) : Option (String × List Char) :=
  match cs.takeWhile isKeyPart with
  | [] => (lineString cs).map fun (s, rest) => (String.ofList s, rest)
  | word => some (String.ofList word, cs.dropWhile isKeyPart)

/-- Read the key and value of a line, up to its end. -/
def line (cs : List Char) : Option ((String × Datum) × List Char) := do
  let (name, afterKey) ← key cs
  match skipSpace afterKey with
  | '=' :: afterSign =>
    let (value, afterValue) ← datum (skipSpace afterSign)
    match skipComment (skipSpace afterValue) with
    | [] => some ((name, value), [])
    | rest => (lineEnd? rest).map fun after => ((name, value), after)
  | _ => none

/-- Read all lines; `fuel` bounds their number. -/
def lines : Nat → List Char → Option (List (String × Datum))
  | 0, _ => none
  | fuel + 1, cs =>
    match skipLines cs.length cs with
    | [] => some []
    | text => do
      let (entry, rest) ← line text
      return entry :: (← lines fuel rest)

/-- The entries of a document, in order; a mark of the byte order may precede them. -/
def entries? (text : String) : Option (List (String × Datum)) :=
  let cs := match text.toList with
    | '\uFEFF' :: rest => rest
    | cs => cs
  lines (cs.length + 1) cs

end Document

end Stencil.Settings
