/-!
White space is the Unicode property `White_Space`. It separates the words of a source line and is
trimmed from both ends of a line of input before a number or a truth value is read from it.
-/

namespace FrameCode.Text

/-- The code points with the property, as closed ranges in increasing order. -/
def whiteRanges : List (Nat × Nat) :=
  [(0x09, 0x0D), (0x20, 0x20), (0x85, 0x85), (0xA0, 0xA0), (0x1680, 0x1680), (0x2000, 0x200A),
   (0x2028, 0x2029), (0x202F, 0x202F), (0x205F, 0x205F), (0x3000, 0x3000)]

def isWhite (c : Char) : Bool :=
  whiteRanges.any fun range => range.1 ≤ c.toNat && c.toNat ≤ range.2

/-- The text without the white space at its two ends. -/
def trim (text : List Char) : List Char :=
  ((text.dropWhile isWhite).reverse.dropWhile isWhite).reverse

/-- The maximal runs of characters that are not white space, from left to right. -/
def words (text : List Char) : List (List Char) :=
  (text.splitOnP isWhite).filter fun word => !word.isEmpty

/-- Equality of ASCII letters regardless of case; all other characters are compared exactly. -/
def sameLetters (a b : List Char) : Bool :=
  a.map Char.toLower == b.map Char.toLower

end FrameCode.Text
