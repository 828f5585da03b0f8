import Phrasebook.Toml.Reader
/-!
# Strings of TOML

Four forms: basic strings between double quotes, with escapes; literal strings between single
quotes, without; and either one over several lines between threefold quotes.

## Main definitions

* `Toml.Reader.quote`: a string of any form.
* `Toml.Reader.lineQuote`: a string on one line, which is also a form of keys.
-/

namespace Phrasebook

namespace Toml

namespace Reader

/-- The number that the next `count` digits in base 16 continue. -/
def hexNumber (number : Nat) : (count : Nat) → Reader Nat
  | 0 => return number
  | count + 1 => do
    match digitOf? 16 (← next) with
    | some digit => hexNumber (number * 16 + digit) count
    | none => failure

/-- The character with the number that the next `count` digits in base 16 spell. -/
def scalar (count : Nat) : Reader Char := do
  let number ← hexNumber 0 count
  guard number.isValidChar
  return Char.ofNat number

/-- The character that an escape stands for; its backslash has been read. -/
def escaped : Reader Char := do
  match ← next with
  | 'b' => return '\x08'
  | 't' => return '\t'
  | 'n' => return '\n'
  | 'f' => return '\x0c'
  | 'r' => return '\r'
  | '"' => return '"'
  | '\\' => return '\\'
  | 'u' => scalar 4
  | 'U' => scalar 8
  | _ => failure

/-- One character of a string on one line, or the quote that ends it. Double quotes allow
escapes. -/
def lineItem (mark : Char) : Reader (Text × Bool) := do
  let c ← next
  if c = mark then return ([], false)
  else if c = '\\' ∧ mark = '"' then return ([← escaped], true)
  else
    guard (isPlain c)
    return ([c], true)

/-- A backslash at the end of a line takes away the line break and all blanks up to the next
character; the backslash has been read. -/
def foldLine : Reader Unit := do
  gap
  newline
  blankLines

/-- One character of a string over several lines, or the quotes that end it. One or two quotes are
characters of the string, also right before the three that end it. -/
def blockItem (mark : Char) : Reader (Text × Bool) := do
  match ((← get).takeWhile (· = mark)).length with
  | 0 =>
    if (← optional newline).isSome then return (['\n'], true)
    let c ← next
    if c = '\\' ∧ mark = '"' then
      if (← get).head?.any fun d => isGap d || d = '\n' || d = '\r' then
        foldLine
        return ([], true)
      else
        return ([← escaped], true)
    else
      guard (isPlain c)
      return ([c], true)
  | 1 | 2 => return ([← next], true)
  | quotes =>
    let inner := min (quotes - 3) 2
    word (List.replicate (3 + inner) mark)
    return (List.replicate inner mark, false)

/-- The pieces of a string, read by `item`, put together. -/
def pieces (item : Reader (Text × Bool)) : Reader Text := do
  return (← chain item).flatten

/-- A string on one line. -/
def lineQuote : Reader Text := do
  let mark ← nextIf fun c => c = '"' || c = '\''
  pieces (lineItem mark)

/-- A string over several lines; a line break right after its beginning is not part of it. -/
def blockQuote : Reader Text := do
  let mark ← nextIf fun c => c = '"' || c = '\''
  word [mark, mark]
  let _ ← optional newline
  pieces (blockItem mark)

/-- A string of any form. -/
def quote : Reader Text :=
  blockQuote <|> lineQuote

end Reader

end Toml

end Phrasebook
