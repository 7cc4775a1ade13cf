import TreeIndent.Text.Basic

/-!
# Points

A point is a place in a text by row and byte column, both counted from zero, ordered by row first.
`pointAt` gives the point of a byte offset.
-/

namespace TreeIndent

/-- A place in a text: a row and a column in bytes, both counted from zero. -/
structure Point where
  row : Nat
  column : Nat
deriving DecidableEq, Repr

namespace Point

/-- The start of a text. -/
def origin : Point := ⟨0, 0⟩

/-- Points are ordered by row, and on one row by column. -/
instance : LT Point :=
  ⟨fun p q => p.row < q.row ∨ p.row = q.row ∧ p.column < q.column⟩

instance : LE Point :=
  ⟨fun p q => p.row < q.row ∨ p.row = q.row ∧ p.column ≤ q.column⟩

instance (p q : Point) : Decidable (p < q) :=
  inferInstanceAs (Decidable (p.row < q.row ∨ p.row = q.row ∧ p.column < q.column))

instance (p q : Point) : Decidable (p ≤ q) :=
  inferInstanceAs (Decidable (p.row < q.row ∨ p.row = q.row ∧ p.column ≤ q.column))

theorem lt_def {p q : Point} : p < q ↔ p.row < q.row ∨ p.row = q.row ∧ p.column < q.column := Iff.rfl

theorem le_def {p q : Point} : p ≤ q ↔ p.row < q.row ∨ p.row = q.row ∧ p.column ≤ q.column := Iff.rfl

end Point

namespace Text

/-- The byte of the line feed. -/
def lineFeed : UInt8 := 10

/-- The point of a byte offset: the line feeds before it, and the bytes since the last of them. An
offset past the end gives the point of the end. -/
def pointAt (t : Text) (offset : Nat) : Point :=
  let before := t.bytes.take offset
  { row := before.count lineFeed
    column := (before.reverse.takeWhile (· ≠ lineFeed)).length }

end Text

end TreeIndent
