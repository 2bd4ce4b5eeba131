/-!
# Blank characters

The characters with the Unicode property `White_Space`, and cutting them off both ends of a text.
-/

namespace StagedSandbox.Text

/-- The Unicode property `White_Space`. -/
def isBlank (c : Char) : Bool :=
  let n := c.toNat
  (0x9 ≤ n && n ≤ 0xd) || n == 0x20 || n == 0x85 || n == 0xa0 || n == 0x1680 ||
  (0x2000 ≤ n && n ≤ 0x200a) || n == 0x2028 || n == 0x2029 || n == 0x202f || n == 0x205f ||
  n == 0x3000

/-- Drop the blanks at the end. -/
def trimRight (text : List Char) : List Char := (text.reverse.dropWhile isBlank).reverse

/-- Drop the blanks at both ends. -/
def trim (text : List Char) : List Char := trimRight (text.dropWhile isBlank)

end StagedSandbox.Text
