import Stencil.Text.Hex
import Stencil.Value

/-!
# Reading JSON

The value that a JSON text denotes. A number without fraction and exponent that is in the range of
64-bit words is an integer, every other number the nearest double. Of two fields with one name the
later one counts.

The reader keeps the lists and objects that are still open on a stack, so that every step goes on
with a shorter text.
-/

namespace Stencil.Value.Read

/-- The white space of JSON. -/
def isSpace (c : Char) : Bool := c == ' ' || c == '\t' || c == '\n' || c == '\r'

/-- The number that four hexadecimal digits denote. -/
def hex4? (a b c d : Char) : Option Nat :=
  [a, b, c, d].foldlM (fun n digit => (Text.hexValue? digit).map (16 * n + ·)) 0

/-- The character for a UTF-16 unit, or for two that form a pair. -/
def ofUnits (high : Nat) (low : Option Nat) : Option Char :=
  match low with
  | some low => some (Char.ofNat (0x10000 + (high - 0xD800) * 0x400 + (low - 0xDC00)))
  | none => if 0xD800 ≤ high ∧ high < 0xE000 then none else some (Char.ofNat high)

/-- The character that a letter after a backslash stands for. -/
def simpleEscape? : Char → Option Char
  | '"' => some '"'
  | '\\' => some '\\'
  | '/' => some '/'
  | 'b' => some '\x08'
  | 'f' => some '\x0c'
  | 'n' => some '\n'
  | 'r' => some '\r'
  | 't' => some '\t'
  | _ => none

/-- Read the rest of a string after its opening quote; `read` holds what was read, reversed. -/
def string (read : List Char) : List Char → Option (List Char × List Char)
  | [] => none
  | '"' :: rest => some (read.reverse, rest)
  | '\\' :: 'u' :: a :: b :: c :: d :: rest => do
    let high ← hex4? a b c d
    if 0xD800 ≤ high ∧ high < 0xDC00 then
      match rest with
      | '\\' :: 'u' :: e :: f :: g :: h :: more => do
        let low ← hex4? e f g h
        if 0xDC00 ≤ low ∧ low < 0xE000 then string ((← ofUnits high (some low)) :: read) more
        else none
      | _ => none
    else string ((← ofUnits high none) :: read) rest
  | '\\' :: c :: rest => do string ((← simpleEscape? c) :: read) rest
  | c :: rest => if c.toNat < 0x20 then none else string (c :: read) rest

/-- A list or object that is still open, with what it holds so far. -/
inductive Frame where
  | items (read : List Value)
  | fields (read : Fields Value) (name : String)

/-- What may come next. -/
inductive Expect where
  /-- A value; `orClose` allows the end of an empty list instead. -/
  | value (orClose : Bool)
  /-- The name of a field of the object read so far; `orClose` allows the end of the object. -/
  | name (read : Fields Value) (orClose : Bool)
  /-- The colon after a name. -/
  | colon (read : Fields Value) (name : String)
  /-- What follows the value just read. -/
  | after (v : Value)

/-- The value under a word of JSON. -/
def wordValue? (cs : List Char) : Option (Value × List Char) :=
  match cs with
  | 'n' :: 'u' :: 'l' :: 'l' :: rest => some (.null, rest)
  | 't' :: 'r' :: 'u' :: 'e' :: rest => some (.bool true, rest)
  | 'f' :: 'a' :: 'l' :: 's' :: 'e' :: rest => some (.bool false, rest)
  | _ => none

/-- The scalar at the front of a text, and the rest. -/
def scalar? (cs : List Char) : Option (Value × List Char) :=
  match cs with
  | '"' :: rest => (string [] rest).map fun (s, after) => (.string (String.ofList s), after)
  | _ =>
    match Decimal.takeLiteral? cs with
    | some (literal, rest) =>
      (Number.ofLiteral? (fun n => minInteger ≤ n && n ≤ maxInteger) literal).map
        fun n => (.number n, rest)
    | none => wordValue? cs

/-- Read a text with some open lists and objects; `fuel` bounds the number of steps. -/
def run : Nat → List Frame → Expect → List Char → Option Value
  | 0, _, _, _ => none
  | fuel + 1, stack, expect, cs =>
    match expect, cs.dropWhile isSpace with
    | .value _, '[' :: rest => run fuel (.items [] :: stack) (.value true) rest
    | .value _, '\x7b' :: rest => run fuel stack (.name [] true) rest
    | .value true, ']' :: rest =>
      match stack with
      | .items [] :: outer => run fuel outer (.after (.array [])) rest
      | _ => none
    | .value _, text => (scalar? text).bind fun (v, rest) => run fuel stack (.after v) rest
    | .name _ true, '\x7d' :: rest => run fuel stack (.after (.object [])) rest
    | .name read _, '"' :: rest =>
      (string [] rest).bind fun (s, after) => run fuel stack (.colon read (String.ofList s)) after
    | .name _ _, _ => none
    | .colon read name, ':' :: rest => run fuel (.fields read name :: stack) (.value false) rest
    | .colon _ _, _ => none
    | .after v, text =>
      match stack, text with
      | [], [] => some v
      | .items read :: outer, ',' :: rest => run fuel (.items (v :: read) :: outer) (.value false) rest
      | .items read :: outer, ']' :: rest => run fuel outer (.after (.array (v :: read).reverse)) rest
      | .fields read name :: outer, ',' :: rest =>
        run fuel outer (.name (Fields.insert name v read) false) rest
      | .fields read name :: outer, '\x7d' :: rest =>
        run fuel outer (.after (.object (Fields.insert name v read))) rest
      | _, _ => none

end Read

/-- The value of a JSON text; none if the text is not JSON. Every step takes a character, except
the last one. -/
def ofJson? (text : String) : Option Value :=
  Read.run (text.toList.length + 1) [] (.value false) text.toList

end Stencil.Value
