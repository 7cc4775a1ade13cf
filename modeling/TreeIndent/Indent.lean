/-!
# Indents

The answer for one line: a column, or that the line is left to the editor's generic indenting.
-/

namespace TreeIndent

/-- The indent of a line. -/
inductive Indent where
  | column (columns : Nat)
  /-- The line is left to generic indenting. -/
  | auto
deriving DecidableEq, Repr

namespace Indent

/-- The integer that editors take: the column, at most the largest of 32 bits, and -1 for `auto`. -/
def raw : Indent → Int
  | .column columns => min columns 2147483647
  | .auto => -1

/-- The column, if there is one. -/
def column? : Indent → Option Nat
  | .column columns => some columns
  | .auto => none

/-- The indent as it is printed. -/
def text : Indent → String
  | .column columns => toString columns
  | .auto => "auto"

end Indent

end TreeIndent
