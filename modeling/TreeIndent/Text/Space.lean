import TreeIndent.Text.Basic

/-!
# White space

The characters with the Unicode property `White_Space`. Blankness of a line, the end of a line's code
and the trimming of numerals all read this one table.
-/

namespace TreeIndent.Text

/-- The code points with the property `White_Space`, as closed ranges in ascending order. -/
def spaceRanges : List (Nat × Nat) :=
  [(0x0009, 0x000D), (0x0020, 0x0020), (0x0085, 0x0085), (0x00A0, 0x00A0), (0x1680, 0x1680),
   (0x2000, 0x200A), (0x2028, 0x2029), (0x202F, 0x202F), (0x205F, 0x205F), (0x3000, 0x3000)]

/-- Whether a character is white space. -/
def isSpace (c : Char) : Bool :=
  spaceRanges.any fun range => range.1 ≤ c.toNat && c.toNat ≤ range.2

/-- A text without the white space at its two ends. -/
def trim (t : Text) : Text :=
  ((t.dropWhile isSpace).reverse.dropWhile isSpace).reverse

/-- The 25 white space characters are those of the table. -/
example : (spaceRanges.map fun range => range.2 - range.1 + 1).sum = 25 := by decide

end TreeIndent.Text
