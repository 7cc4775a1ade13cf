import TreeIndent.Proofs.Document.Lines

/-!
# Points and the lines of a document

The point of a byte offset is found by counting line feeds backwards, the start of a line by adding up the lines
before it. The two agree: a row is a line, a column is the distance from the start of that line.

* `Text.nextLineFeed`: the first line feed from an offset on, or the end of the text.
* `Document.OnRow`: the offsets from the start of a line to the line feed that ends it. Each offset up to the end
  of the text lies on a row (`exists_onRow`), and its point is that row with the distance from the line's start
  (`OnRow.pointAt`).

`pointAt_inverse_lineStart` follows from these two facts.
-/

namespace TreeIndent

/-! ## Bytes of texts with and without line feeds -/

namespace Text

/-- The byte offset of the first line feed from an offset on; the end of the text where there is none. -/
def nextLineFeed (t : Text) (offset : Nat) : Nat :=
  offset + ((t.bytes.drop offset).takeWhile (· ≠ lineFeed)).length

lemma ne_lineFeed_of_mem_bytes {t : Text} (h : '\n' ∉ t) : ∀ byte ∈ t.bytes, byte ≠ lineFeed := by
  intro byte hbyte heq
  have hnone : t.bytes.count lineFeed = 0 := by
    rw [count_lineFeed_bytes]
    exact List.count_eq_zero.2 h
  exact List.count_eq_zero.1 hnone (heq ▸ hbyte)

/-- A text that is empty or ends in a line feed: what comes after it starts a line. -/
def ClosesLine (t : Text) : Prop :=
  t = [] ∨ ∃ s, t = s ++ ['\n']

/-- Seen from its end, such a text has a line feed at once. -/
lemma ClosesLine.takeWhile_reverse {t : Text} (h : t.ClosesLine) :
    t.bytes.reverse.takeWhile (· ≠ lineFeed) = [] := by
  rcases h with rfl | ⟨s, rfl⟩
  · rfl
  · have hfeed : bytes ['\n'] = [lineFeed] := by decide
    rw [bytes_append, hfeed, List.reverse_concat, List.takeWhile_cons_of_neg (by decide)]

/-- The point of an offset behind the start of a line, up to the end of the line. -/
lemma pointAt_append {before line : Text} (hbefore : before.ClosesLine) (hline : '\n' ∉ line) (rest : Text)
    {column : Nat} (hcolumn : column ≤ line.byteLength) :
    pointAt (before ++ (line ++ rest)) (before.byteLength + column) = ⟨before.count '\n', column⟩ := by
  have hlength : column ≤ line.bytes.length := by
    rw [length_bytes]
    exact hcolumn
  have htake : (bytes (before ++ (line ++ rest))).take (before.byteLength + column)
      = before.bytes ++ line.bytes.take column := by
    rw [bytes_append, bytes_append, ← length_bytes, List.take_length_add_append,
      List.take_append_of_le_length hlength]
  have hplain : ∀ byte ∈ line.bytes.take column, byte ≠ lineFeed :=
    fun byte hbyte => ne_lineFeed_of_mem_bytes hline byte (List.mem_of_mem_take hbyte)
  have hrow : (before.bytes ++ line.bytes.take column).count lineFeed = before.count '\n' := by
    rw [List.count_append, count_lineFeed_bytes, Nat.add_eq_left, List.count_eq_zero]
    exact fun hmem => hplain lineFeed hmem rfl
  -- Backwards from the offset there is the part of the line, and then the text before it, which closes its line.
  have hcol : ((before.bytes ++ line.bytes.take column).reverse.takeWhile (· ≠ lineFeed)).length = column := by
    rw [List.reverse_append, List.takeWhile_append_of_pos, hbefore.takeWhile_reverse, List.append_nil,
      List.length_reverse, List.length_take_of_le hlength]
    intro byte hbyte
    exact decide_eq_true (hplain byte (List.mem_reverse.1 hbyte))
  unfold pointAt
  rw [htake]
  dsimp only
  rw [hrow, hcol]

/-- The next line feed after the start of a line is the one behind the line. -/
lemma nextLineFeed_append {line rest : Text} (before : Text) (hline : '\n' ∉ line)
    (hrest : rest = [] ∨ ∃ s, rest = '\n' :: s) :
    nextLineFeed (before ++ (line ++ rest)) before.byteLength = before.byteLength + line.byteLength := by
  have hstop : rest.bytes.takeWhile (· ≠ lineFeed) = [] := by
    rcases hrest with rfl | ⟨s, rfl⟩
    · rfl
    · have hfeed : bytes ('\n' :: s) = lineFeed :: bytes s := rfl
      rw [hfeed, List.takeWhile_cons_of_neg (by decide)]
  unfold nextLineFeed
  rw [bytes_append, bytes_append, ← length_bytes before, List.drop_left, List.takeWhile_append_of_pos, hstop,
    List.append_nil, length_bytes line]
  intro byte hbyte
  exact decide_eq_true (ne_lineFeed_of_mem_bytes hline byte hbyte)

lemma closesLine_fedLines (pieces : List Text) : (fedLines pieces).ClosesLine := by
  rcases List.eq_nil_or_concat' pieces with rfl | ⟨earlier, last, rfl⟩
  · exact Or.inl rfl
  · rw [fedLines_concat, ← List.append_assoc]
    exact Or.inr ⟨_, rfl⟩

lemma count_fedLines {pieces : List Text} (h : ∀ piece ∈ pieces, '\n' ∉ piece) :
    (fedLines pieces).count '\n' = pieces.length := by
  induction pieces with
  | nil => rfl
  | cons piece rest ih =>
    have hpiece : piece.count '\n' = 0 := List.count_eq_zero.2 (h piece (List.mem_cons_self ..))
    have hfeed : ['\n'].count '\n' = 1 := by decide
    rw [fedLines_cons, List.count_append, List.count_append, hpiece, hfeed,
      ih fun other hother => h other (List.mem_cons_of_mem _ hother), List.length_cons]
    omega

end Text

namespace Document

open LinedText Text

/-! ## The text above a line -/

/-- As many line feeds as there are lines above a line. -/
lemma count_above {doc : Document} {row : Nat} (h : row < doc.lineCount) : (doc.above row).count '\n' = row := by
  have hlength : row ≤ doc.pieces.length := doc.lineCount_eq_length ▸ Nat.le_of_lt h
  rw [above_eq_fedLines h, count_fedLines, List.length_take_of_le hlength]
  intro piece hpiece
  exact lineFeed_not_mem_of_mem_splitOn (List.mem_of_mem_take hpiece)

section Piece

variable {doc : Document} {row : Nat} {piece : Text} (hpiece : doc.pieces[row]? = some piece)

include hpiece

lemma lt_lineCount_of_piece : row < doc.lineCount := by
  obtain ⟨hrow, -⟩ := List.getElem?_eq_some_iff.1 hpiece
  exact doc.lineCount_eq_length ▸ hrow

lemma text_eq_around_piece : doc.text = doc.above row ++ (piece ++ behind doc.pieces row) := by
  rw [above_eq_fedLines (lt_lineCount_of_piece hpiece)]
  exact text_eq_of_piece hpiece

lemma nextLineFeed_above :
    doc.text.nextLineFeed (doc.above row).byteLength = (doc.above row).byteLength + piece.byteLength := by
  rw [text_eq_around_piece hpiece]
  exact nextLineFeed_append _ (lineFeed_not_mem_of_mem_splitOn (List.mem_of_getElem? hpiece)) (behind_cases ..)

end Piece

/-- The lines above the next line reach behind the line feed, and after the last line to the end of the text. -/
lemma byteLength_above_succ {doc : Document} {row : Nat} (h : row < doc.lineCount) :
    (doc.above (row + 1)).byteLength = doc.text.nextLineFeed (doc.above row).byteLength +
      if row + 1 < doc.lineCount then 1 else 0 := by
  obtain ⟨piece, hpiece⟩ := exists_piece h
  have hfeed : byteLength ['\n'] = 1 := by decide
  rw [nextLineFeed_above hpiece, above_succ, lineD_append_ending, hpiece, Option.getD_some, byteLength_append,
    byteLength_append]
  split
  · rw [hfeed, Nat.add_assoc]
  · rfl

/-! ## Offsets on a row -/

/-- The offset lies on the row: not before the start of the line, and not past the line feed that ends it. -/
structure OnRow (doc : Document) (row offset : Nat) : Prop where
  exists_row : row < doc.lineCount
  start_le : (doc.above row).byteLength ≤ offset
  le_lineFeed : offset ≤ doc.text.nextLineFeed (doc.above row).byteLength

/-- The row of an offset is that of its line, and the column is the distance from the start of the line. -/
lemma OnRow.pointAt {doc : Document} {row offset : Nat} (h : doc.OnRow row offset) :
    doc.text.pointAt offset = ⟨row, offset - (doc.above row).byteLength⟩ := by
  obtain ⟨piece, hpiece⟩ := exists_piece h.exists_row
  have hstart := h.start_le
  have hfeed := h.le_lineFeed
  have hplain : '\n' ∉ piece := lineFeed_not_mem_of_mem_splitOn (List.mem_of_getElem? hpiece)
  have hcloses : (doc.above row).ClosesLine := by
    rw [above_eq_fedLines h.exists_row]
    exact closesLine_fedLines _
  rw [nextLineFeed_above hpiece] at hfeed
  have hpoint := pointAt_append hcloses hplain (behind doc.pieces row)
    (show offset - (doc.above row).byteLength ≤ _ by omega)
  rw [← text_eq_around_piece hpiece, count_above h.exists_row, Nat.add_sub_cancel' hstart] at hpoint
  exact hpoint

/-- An offset on an earlier row is smaller. -/
lemma OnRow.lt {doc : Document} {row later a b : Nat} (ha : doc.OnRow row a) (hb : doc.OnRow later b)
    (h : row < later) : a < b := by
  obtain ⟨rest, hrest⟩ := doc.above_prefix (Nat.succ_le_of_lt h)
  have hlater := hb.exists_row
  have hnext := byteLength_above_succ ha.exists_row
  rw [if_pos (show row + 1 < doc.lineCount by omega)] at hnext
  have hle : (doc.above (row + 1)).byteLength ≤ (doc.above later).byteLength := by
    rw [← hrest, byteLength_append]
    exact Nat.le_add_right ..
  have hfeed := ha.le_lineFeed
  have hstart := hb.start_le
  omega

/-- An offset up to the line feed of a row lies on that row or on one before it. -/
lemma exists_onRow_of_le_lineFeed {doc : Document} {offset row : Nat} (hrow : row < doc.lineCount)
    (h : offset ≤ doc.text.nextLineFeed (doc.above row).byteLength) : ∃ r, doc.OnRow r offset := by
  induction row with
  | zero => exact ⟨0, hrow, Nat.zero_le _, h⟩
  | succ row ih =>
    by_cases hstart : (doc.above (row + 1)).byteLength ≤ offset
    · exact ⟨row + 1, hrow, hstart, h⟩
    · have hnext := byteLength_above_succ (show row < doc.lineCount by omega)
      rw [if_pos hrow] at hnext
      exact ih (by omega) (by omega)

/-- Every offset up to the end of the text lies on a row. -/
lemma exists_onRow {doc : Document} {offset : Nat} (h : offset ≤ doc.text.byteLength) :
    ∃ row, doc.OnRow row offset := by
  obtain ⟨row, hcount⟩ : ∃ row, doc.lineCount = row + 1 := Nat.exists_eq_add_one.2 doc.lineCount_pos
  have hlast := byteLength_above_succ (show row < doc.lineCount by omega)
  rw [← hcount, above_lineCount, if_neg (Nat.lt_irrefl _), Nat.add_zero] at hlast
  exact exists_onRow_of_le_lineFeed (show row < doc.lineCount by omega) (hlast ▸ h)

/-! ## Points and line starts -/

/-- Points and the starts of lines are inverse to each other. An offset up to the end of the text lies its column
behind the start of the line at its row; an offset behind the start of a line, not past the line feed that ends
it, has the row of the line and that distance as its column. Offsets past the end have the point of the end, and
up to the end points grow with the offsets. -/
theorem pointAt_inverse_lineStart (doc : Document) :
    (∀ offset ≤ doc.text.byteLength, ∀ row column, doc.text.pointAt offset = ⟨row, column⟩ →
      row < doc.lineCount ∧ column ≤ offset ∧ doc.lineStart? (row + 1) = some (offset - column)) ∧
    (∀ line start column, doc.lineStart? line = some start →
      start + column ≤ doc.text.nextLineFeed start →
      doc.text.pointAt (start + column) = ⟨line - 1, column⟩) ∧
    (∀ offset, doc.text.byteLength ≤ offset →
      doc.text.pointAt offset = doc.text.pointAt doc.text.byteLength) ∧
    ∀ a b, a < b → b ≤ doc.text.byteLength → doc.text.pointAt a < doc.text.pointAt b := by
  refine ⟨?_, ?_, ?_, ?_⟩
  · intro offset hoffset row column hpoint
    obtain ⟨r, hr⟩ := exists_onRow hoffset
    rw [hr.pointAt, Point.mk.injEq] at hpoint
    obtain ⟨rfl, rfl⟩ := hpoint
    have hstart := hr.start_le
    refine ⟨hr.exists_row, Nat.sub_le .., lineStart?_eq_some_iff.2 ⟨by omega, hr.exists_row, ?_⟩⟩
    rw [Nat.add_sub_cancel]
    omega
  · intro line start column hstart hfeed
    obtain ⟨hpos, hcount, rfl⟩ := lineStart?_eq_some_iff.1 hstart
    have hrow : doc.OnRow (line - 1) ((doc.above (line - 1)).byteLength + column) :=
      ⟨by omega, Nat.le_add_right .., hfeed⟩
    rw [hrow.pointAt, Nat.add_sub_cancel_left]
  · intro offset hoffset
    unfold Text.pointAt
    rw [← Text.length_bytes] at hoffset ⊢
    rw [List.take_of_length_le hoffset, List.take_length]
  · intro a b hab hb
    obtain ⟨row, hrow⟩ := exists_onRow (show a ≤ doc.text.byteLength by omega)
    obtain ⟨later, hlater⟩ := exists_onRow hb
    have hstart := hrow.start_le
    rw [hrow.pointAt, hlater.pointAt, Point.lt_def]
    rcases Nat.lt_trichotomy row later with hlt | rfl | hgt
    · exact Or.inl hlt
    · exact Or.inr ⟨rfl, by dsimp only; omega⟩
    · -- The larger offset cannot lie on an earlier row.
      exact absurd (hlater.lt hrow hgt) (by omega)

/-- The offset inside a character of two bytes, the one between a carriage return and its line feed, and the one
behind that line feed. -/
example : [1, 3, 4].map (Text.pointAt "é\r\nx".toList) = [⟨0, 1⟩, ⟨0, 3⟩, ⟨1, 0⟩] := by
  decide

end Document

end TreeIndent
