import ColumnRules.Text.Letters
import ColumnRules.Text.Numerals

/-!
# Character classes of rule text

Blanks separate tokens; name characters bound them. A name starts with a letter, `_` or `$`
and continues with letters, numerals, `_` and `$`. The classes follow the Unicode properties
White_Space and Alphabetic and the three numeric categories, not ASCII alone.
-/

set_option autoImplicit false

namespace ColumnRules

def inRanges (ranges : List (Nat × Nat)) (point : Nat) : Bool :=
  ranges.any fun range => range.1 ≤ point && point ≤ range.2

/-- The blanks: code points with the Unicode property White_Space. -/
def blankRanges : List (Nat × Nat) := [
  (0x9, 0xD), (0x20, 0x20), (0x85, 0x85), (0xA0, 0xA0), (0x1680, 0x1680), (0x2000, 0x200A),
  (0x2028, 0x2029), (0x202F, 0x202F), (0x205F, 0x205F), (0x3000, 0x3000)]

def isBlank (c : Char) : Bool := inRanges blankRanges c.toNat

def isLetter (c : Char) : Bool := c.isAlpha || inRanges Letters.ranges c.toNat

def isNumeral (c : Char) : Bool := c.isDigit || inRanges Numerals.ranges c.toNat

def isNameStart (c : Char) : Bool := c == '_' || c == '$' || isLetter c

def isNameChar (c : Char) : Bool := isNameStart c || isNumeral c

theorem isNameChar_of_isNameStart {c : Char} (h : isNameStart c = true) : isNameChar c = true := by
  simp [isNameChar, h]

theorem isNameChar_of_isDigit {c : Char} (h : c.isDigit = true) : isNameChar c = true := by
  simp [isNameChar, isNumeral, h]

def trimBlanks (s : List Char) : List Char :=
  ((s.dropWhile isBlank).reverse.dropWhile isBlank).reverse

end ColumnRules
