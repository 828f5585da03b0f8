import Phrasebook.Text.Utf8
/-!
# Blank characters

The 25 characters with the Unicode property `White_Space`, and the text that is left when they are
taken off both ends.

## Main definitions

* `isBlank`: the property.
* `Text.trimmed`: a text without the blanks at its ends.
-/

namespace Phrasebook

/-- The character has the property `White_Space`. -/
def isBlank (c : Char) : Bool :=
  [(0x09, 0x0D), (0x20, 0x20), (0x85, 0x85), (0xA0, 0xA0), (0x1680, 0x1680), (0x2000, 0x200A),
    (0x2028, 0x2029), (0x202F, 0x202F), (0x205F, 0x205F), (0x3000, 0x3000)].any
    fun (first, last) => first ≤ c.toNat && c.toNat ≤ last

/-- The text without the blank characters at its two ends. -/
def Text.trimmed (text : Text) : Text :=
  ((text.dropWhile isBlank).reverse.dropWhile isBlank).reverse

end Phrasebook
