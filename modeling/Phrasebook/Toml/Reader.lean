import Phrasebook.Text.Utf8
/-!
# Readers

A reader takes what it understands from the front of a text and leaves the rest. This module holds
the few readers from which the grammar of TOML is put together.

## Main definitions

* `Reader`: a function from a text to a result and the rest of the text, or to nothing.
* `Reader.chain`: read an item again and again for as long as it asks for another one.

## Implementation notes

No item of the grammar asks for another one without having taken a character. So there is at most
one item more than there are characters, and `Reader.chain` recurs on the characters of its input.
-/

namespace Phrasebook

namespace Toml

/-- A reader of an `α` at the front of a text. -/
abbrev Reader := StateT Text Option

namespace Reader

variable {α : Type}

/-- The next character, which is left where it is. -/
def peek? : Reader (Option Char) := do
  return (← get).head?

/-- The next character. -/
def next : Reader Char := fun input =>
  match input with
  | [] => none
  | c :: rest => some (c, rest)

/-- The next character, if it is one of a class. -/
def nextIf (accept : Char → Bool) : Reader Char := do
  let c ← next
  guard (accept c)
  return c

/-- The characters at the front that are of a class. -/
def takeWhile (accept : Char → Bool) : Reader Text := fun input =>
  some (input.takeWhile accept, input.dropWhile accept)

/-- Exactly these characters. -/
def word (text : Text) : Reader Unit := fun input =>
  if text.isPrefixOf input then some ((), input.drop text.length) else none

/-- What the reader reads, or nothing where it fails. -/
def optional (reader : Reader α) : Reader (Option α) := fun input =>
  match reader input with
  | some (a, rest) => some (some a, rest)
  | none => some (none, input)

/-- At most one item more than `bound` has characters, one after the other. -/
def chainWithin (item : Reader (α × Bool)) : (bound : Text) → Reader (List α)
  | [] => do
    let (a, more) ← item
    guard !more
    return [a]
  | _ :: bound => do
    let (a, more) ← item
    if more then return a :: (← chainWithin item bound) else return [a]

/-- One item after the other; each says whether another one follows. -/
def chain (item : Reader (α × Bool)) : Reader (List α) := fun input =>
  chainWithin item input input

/-- The value of a digit in a base up to 16, in either case. -/
def digitOf? (base : Nat) (c : Char) : Option Nat :=
  let digit? :=
    if '0' ≤ c ∧ c ≤ '9' then some (c.toNat - '0'.toNat)
    else if 'a' ≤ c ∧ c ≤ 'f' then some (c.toNat - 'a'.toNat + 10)
    else if 'A' ≤ c ∧ c ≤ 'F' then some (c.toNat - 'A'.toNat + 10)
    else none
  digit?.filter (· < base)

/-- Characters between words: spaces and tabs. -/
def isGap (c : Char) : Bool :=
  c = ' ' || c = '\t'

/-- Spaces and tabs. -/
def gap : Reader Unit := do
  let _ ← takeWhile isGap

/-- The end of a line: a line feed, with or without a carriage return before it. -/
def newline : Reader Unit :=
  word ['\n'] <|> word ['\r', '\n']

/-- A character that may stand in comments and strings: any but the controls, a tab excepted. -/
def isPlain (c : Char) : Bool :=
  c = '\t' || (' ' ≤ c && c ≠ '\x7f')

/-- A comment, up to the end of its line. -/
def comment : Reader Unit := do
  word ['#']
  let _ ← takeWhile isPlain

/-- Spaces, tabs and ends of lines. -/
def blankLines : Reader Unit := do
  let _ ← chain (do
    gap
    return ((), (← optional newline).isSome))

/-- What may stand between the elements of an array: spaces, ends of lines, and comments that go to
the end of theirs. -/
def filler : Reader Unit := do
  let _ ← chain (do
    gap
    if (← peek?) = some '#' then
      comment
      newline
      return ((), true)
    else
      return ((), (← optional newline).isSome))

end Reader

end Toml

end Phrasebook
