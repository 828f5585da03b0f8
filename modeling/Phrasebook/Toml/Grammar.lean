import Phrasebook.Toml.Quote
import Phrasebook.Toml.Moment
import Phrasebook.Toml.Number
/-!
# The lines of a TOML document

## Main definitions

* `Toml.Reader.value`: a value, with arrays and inline tables nested up to a depth.
* `Toml.Line`: what a line says.
* `Toml.Reader.line`: a line.
* `Toml.Reader.lines`: all lines of a document.

## Implementation notes

Arrays and inline tables may be nested, and a dotted key may have steps, fewer than `nestingLimit`
times. The readers of nested values recur on what is left of that depth.
-/

namespace Phrasebook

namespace Toml

/-- The number of nested brackets and braces, or of steps of a key, that is too large. -/
def nestingLimit : Nat :=
  80

/-- A dotted key: the steps before its last one, and the last one. -/
structure Key where
  /-- The steps that lead to the table of the key. -/
  steps : List Text
  /-- The key in that table. -/
  last : Text
  deriving DecidableEq, Repr

/-- What a line says. -/
inductive Line where
  /-- Nothing, or a comment. -/
  | blank
  /-- A key has a value. -/
  | entry (key : Key) (value : Value)
  /-- The lines that follow are about the table under the key. -/
  | table (key : Key)
  /-- The lines that follow are about a new table at the end of the array under the key. -/
  | tables (key : Key)

namespace Reader

/-- A character of a key without quotes. -/
def isBare (c : Char) : Bool :=
  c.isAlphanum || c = '-' || c = '_'

/-- One step of a key. -/
def simpleKey : Reader Text :=
  lineQuote <|> do
    let text ← takeWhile isBare
    guard (!text.isEmpty)
    return text

/-- A dotted key, with the spaces around it. -/
def key : Reader Key := do
  let steps ← chain do
    gap
    let step ← simpleKey
    gap
    return (step, (← optional (word ['.'])).isSome)
  guard (steps.length < nestingLimit)
  match steps.getLast? with
  | none => failure
  | some last => return ⟨steps.dropLast, last⟩

/-- A value on its own, without parts. -/
def atom : Reader Value := do
  match ← peek? with
  | some '"' | some '\'' => .string <$> quote
  | some 't' => word "true".toList; return .boolean true
  | some 'f' => word "false".toList; return .boolean false
  | _ => (do moment; return .moment) <|> number

/-- The elements of an array. A comma may follow the last one. -/
def array (value : Reader Value) : Reader Value := do
  word ['[']
  filler
  if (← optional (word [']'])).isSome then
    return .array .inline []
  else
    let elements ← chain do
      let element ← value
      filler
      if (← optional (word [','])).isSome then
        filler
        return (element, (← optional (word [']'])).isNone)
      else
        word [']']
        return (element, false)
    return .array .inline elements

/-- A key and its value, on one line. -/
def assignment (value : Reader Value) : Reader (Key × Value) := do
  let key ← key
  word ['=']
  gap
  return (key, ← value)

/-- The entries of an inline table. -/
def inlineTable (value : Reader Value) : Reader Value := do
  word ['\x7b']
  gap
  if (← optional (word ['\x7d'])).isSome then
    return .table .inline []
  else
    let entries ← chain do
      let entry ← assignment value
      gap
      match ← next with
      | ',' => return (entry, true)
      | '\x7d' => return (entry, false)
      | _ => failure
    let table : Option Entries :=
      entries.foldlM (fun table (key, value) => table.put key.last value key.steps) []
    return .table .inline (← table)

/-- A value in which arrays and inline tables are nested up to the given depth. -/
def value : (depth : Nat) → Reader Value
  | 0 => atom
  | depth + 1 => do
    match ← peek? with
    | some '[' => array (value depth)
    | some '\x7b' => inlineTable (value depth)
    | _ => atom

/-- A header: a key between brackets, which are doubled for an array of tables. -/
def header : Reader Line := do
  word ['[']
  if (← optional (word ['['])).isSome then
    let key ← key
    word [']', ']']
    return .tables key
  else
    let key ← key
    word [']']
    return .table key

/-- What a line says, up to the blanks before its end. -/
def statement : Reader Line := do
  match ← peek? with
  | none | some '#' | some '\n' | some '\r' => return .blank
  | some '[' => header
  | _ =>
    let (key, value) ← assignment (value (nestingLimit - 1))
    return .entry key value

/-- A line, and whether another one follows. -/
def line : Reader (Line × Bool) := do
  gap
  let line ← statement
  gap
  let _ ← optional comment
  let more ← optional newline
  guard (more.isSome || (← get).isEmpty)
  return (line, !(← get).isEmpty)

/-- All lines of a document. A byte order mark before the first one is skipped. -/
def lines : Reader (List Line) := do
  let _ ← optional (word ['\ufeff'])
  if (← get).isEmpty then return [] else chain line

end Reader

end Toml

end Phrasebook
