import TreeIndent.Document
import TreeIndent.Tree.Place

/-!
# The nodes at the ends of a line

The node that a line starts with and the node that it ends in, found by position. Where no column is given
the first and the last character of the line decide it; a line that does not exist is looked up at column
zero of its row.
-/

namespace TreeIndent

namespace Place

/-- The node that starts a line. -/
def firstOnLine (root : Place) (doc : Document) (line : Nat) (column : Option Nat := none) : Place :=
  root.atColumn (line - 1) (column.getD (doc.lineD line).indentLength)

/-- The node that ends a line. A blank line has no last character and is looked up at column zero. -/
def lastOnLine (root : Place) (doc : Document) (line : Nat) (column : Option Nat := none) : Place :=
  root.atColumn (line - 1) (column.getD ((doc.lineD line).lastColumn?.getD 0))

end Place

end TreeIndent
