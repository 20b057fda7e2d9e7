import Stencil.Filter
import Stencil.Text.Case
import Stencil.Text.Html
import Stencil.Text.Replace
import Stencil.Value.Display

/-!
# Built-in filters

The filters under every registry. Those that change text change the strings inside lists and objects
too. Only `length`, `replace` and `add` can fail.
-/

namespace Stencil.Filter

/-- A filter that rewrites the characters of every string in its input. -/
def ofText (f : List Char → List Char) : Filter where
  apply value _ := .ok (value.mapText fun s => String.ofList (f s.toList))

/-- A filter that cannot fail. -/
def ofTotal (f : Value → List Value → Value) : Filter where
  apply value arguments := .ok (f value arguments)

/-- The text with every character that HTML gives a meaning replaced. -/
def escape : Filter where
  apply value _ := .ok (value.mapText Text.escapeHtml)

/-- The value as it is; its name marks the output as safe. -/
def safe : Filter := ofTotal fun value _ => value

/-- The number of characters, items or fields; of null it is zero. -/
def length : Filter where
  apply value _ := match value with
    | .string s => .ok (.count s.length)
    | .array items => .ok (.count items.length)
    | .object fields => .ok (.count fields.length)
    | .null => .ok (.count 0)
    | _ => .error (.filter "length" "value has no length")

/-- The output texts of the items or fields, with a separator between them. -/
def join : Filter := ofTotal fun value arguments =>
  let separator := (arguments.head?.map Value.display).getD ""
  match value with
  | .array items => .string (String.intercalate separator (items.map Value.display))
  | .object fields =>
    .string (String.intercalate separator (fields.map fun e => e.2.display))
  | other => .string other.display

/-- The first argument in place of null, false and the empty text. -/
def fallback : Filter := ofTotal fun value arguments =>
  let isEmpty := match value with
    | .string "" => true
    | other => other.isAbsent
  if isEmpty then arguments.head?.getD .null else value

/-- The first item or character. -/
def first : Filter := ofTotal fun value _ => match value with
  | .array items => items.head?.getD .null
  | .string s => (s.toList.head?.map fun c => .string (String.ofList [c])).getD .null
  | _ => .null

/-- The last item or character. -/
def last : Filter := ofTotal fun value _ => match value with
  | .array items => items.getLast?.getD .null
  | .string s => (s.toList.getLast?.map fun c => .string (String.ofList [c])).getD .null
  | _ => .null

/-- The items or characters from the last to the first. -/
def reverse : Filter := ofTotal fun value _ => match value with
  | .array items => .array items.reverse
  | .string s => .string (String.ofList s.toList.reverse)
  | other => other

/-- One text in place of another. -/
def replace : Filter where
  apply value arguments := match arguments with
    | search :: replacement :: _ =>
      if search.display = "" then .ok value
      else .ok (value.mapText fun s => String.ofList
        (Text.replaceAll search.display.toList replacement.display.toList s.toList))
    | _ => .error (.filter "replace" "expected a search string and a replacement")

/-- The characters outside of tags, where a tag reaches from `<` to the next `>` or to the end. -/
def stripTags (inTag : Bool) : List Char → List Char
  | [] => []
  | c :: rest =>
    if c = '<' then stripTags true rest
    else if inTag then stripTags (c ≠ '>') rest
    else c :: stripTags false rest

/-- The compact JSON text. -/
def json : Filter := ofTotal fun value _ => .string value.json

/-- The sum of two numbers, of lists, of a list and an item, or of objects; else the two output
texts in one. -/
def sum (value operand : Value) : Value :=
  match value, operand with
  | .array items, .array more => .array (items ++ more)
  | .array items, item => .array (items ++ [item])
  | .object fields, .object more => .object (Fields.insertAll fields more)
  | .number a, .number b => ((a.add b).map Value.number).getD .null
  | a, b => .string (a.display ++ b.display)

/-- The sum with the first argument. -/
def add : Filter where
  apply value arguments := match arguments with
    | operand :: _ => .ok (sum value operand)
    | [] => .error (.filter "add" "expected a value to add")

/-- The items that are equal to none before them; `kept` holds those, reversed. -/
def distinctFrom (kept : List Value) : List Value → List Value
  | [] => kept.reverse
  | item :: rest =>
    distinctFrom (if kept.any fun v => v.same item then kept else item :: kept) rest

/-- A list without repetitions. -/
def distinct : Filter := ofTotal fun value _ => match value with
  | .array items => .array (distinctFrom [] items)
  | other => other

/-- A backslash before a backslash and before quotes. -/
def addSlashes (cs : List Char) : List Char :=
  cs.flatMap fun c => if c = '\\' ∨ c = '\'' ∨ c = '"' then ['\\', c] else [c]

/-- The filters under every registry, by name. -/
def builtins : List (String × Filter) :=
  [("upper", ofText Text.upper),
    ("lower", ofText Text.lower),
    ("capitalize", ofText Text.capitalize),
    ("title", ofText Text.title),
    ("length", length),
    ("join", join),
    ("default", fallback),
    ("first", first),
    ("last", last),
    ("reverse", reverse),
    ("escape", escape),
    ("e", escape),
    ("safe", safe),
    ("raw", safe),
    ("replace", replace),
    ("striptags", ofText (stripTags false)),
    ("json_encode", json),
    ("json", json),
    ("add", add),
    ("uniq", distinct),
    ("addslashes", ofText addSlashes)]

end Stencil.Filter
