import Phrasebook.Text.Utf8
import Phrasebook.Text.Unprintable
import Phrasebook.Text.GraphemeExtend
/-!
# Quoted texts

Reports show a phrase or a path between double quotes, in a form that keeps it on one line and
gives every character a visible shape.

## Main definitions

* `isShapeless`: the characters that are written by their numbers.
* `quotedChar`: the quoted form of one character.
* `quoted`: the quoted form of a text.

## Implementation notes

A character that is unprintable or blank, or that would merge with the character before it, is
written by its number. The few with a short escape keep that escape. A single quote stands for
itself.
-/

namespace Phrasebook

/-- The digits of a number in base 16, lower case, without leading zeros. -/
def hexDigits (n : Nat) : Text :=
  Nat.toDigits 16 n

/-- The fillers: letters of Hangul that stand for a missing letter and leave no mark. -/
def fillers : List Char :=
  ['\u115f', '\u1160', '\u3164', '\uffa0']

/-- The halfwidth sound marks: they extend the letter before them, but have a place of their own. -/
def soundMarks : List Char :=
  ['\uff9e', '\uff9f']

/-- The character has no visible shape of its own. -/
def isShapeless (c : Char) : Bool :=
  isUnprintable c || c ∈ fillers || (isGraphemeExtend c && c ∉ soundMarks)

/-- How one character is written between double quotes. -/
def quotedChar (c : Char) : Text :=
  if c = '\x00' then ['\\', '0']
  else if c = '\t' then ['\\', 't']
  else if c = '\n' then ['\\', 'n']
  else if c = '\r' then ['\\', 'r']
  else if c = '"' ∨ c = '\\' then ['\\', c]
  else if isShapeless c then
    ['\\', 'u', '\x7b'] ++ hexDigits c.toNat ++ ['\x7d']
  else [c]

/-- The text between double quotes, each character in its quoted form. -/
def quoted (text : Text) : Text :=
  '"' :: text.flatMap quotedChar ++ ['"']

end Phrasebook
