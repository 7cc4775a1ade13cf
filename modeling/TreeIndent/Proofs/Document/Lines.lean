import TreeIndent.Document
import TreeIndent.Proofs.Document.Pieces

/-!
# The lines of a document and its text

The lines with their endings, one after the other, are the text. `ending` is what stands after a line: a line
feed with or without a carriage return before it, and on the last line nothing or a carriage return. `above` is
the text before a row.

A line starts where the text above it ends (`lineStart?_eq_some_iff`), and the text goes on with the line and its
ending (`above_succ`). So the starts of the lines grow, and both ends of a line are places where the text can be
cut. `Partitioned` says all this of a text and the index that is kept with it.

It rests on the index being that of the text. Every edit leaves it so, whether it was possible or not
(`Indexed.edit`), and hence every sequence of edits does (`indexed_edits`).
-/

namespace TreeIndent

/-! ## Lines and endings -/

namespace LinedText

/-- What stands after a line: the line feed, which the last line does not have, and before it the carriage return
that is not part of the line. -/
def ending (lined : LinedText) (line : Nat) : Text :=
  ((lined.pieces[line - 1]?).getD []).finalReturn ++ if line < lined.lineCount then ['\n'] else []

/-- The lines before a row, each with its ending. -/
def above (lined : LinedText) (row : Nat) : Text :=
  (List.range row).flatMap fun r => lined.lineD (r + 1) ++ lined.ending (r + 1)

/-- The lines of a text, as its index has them, partition the text. -/
structure Partitioned (lined : LinedText) : Prop where
  /-- Every line feed starts a line, besides the first one. -/
  lineCount_eq : lined.lineCount = 1 + lined.text.bytes.count Text.lineFeed
  /-- The lines are numbered from one to their number. -/
  line_iff : ∀ line, (lined.line? line).isSome = true ↔ 1 ≤ line ∧ line ≤ lined.lineCount
  no_lineFeed : ∀ line text, lined.line? line = some text → '\n' ∉ text
  /-- The text is the lines, each followed by its ending. -/
  text_eq : lined.text
    = (List.range lined.lineCount).flatMap fun row => lined.lineD (row + 1) ++ lined.ending (row + 1)
  /-- A line before the last one ends in a line feed, with or without a carriage return. -/
  ending_inner : ∀ line < lined.lineCount, lined.ending line = ['\n'] ∨ lined.ending line = ['\r', '\n']
  /-- The last line ends in nothing or in a carriage return. -/
  ending_last : lined.ending lined.lineCount = [] ∨ lined.ending lined.lineCount = ['\r']
  start_iff : ∀ line, (lined.lineStart? line).isSome = true ↔ 1 ≤ line ∧ line ≤ lined.lineCount
  start_first : lined.lineStart? 1 = some 0
  start_lt : ∀ line later start next, lined.lineStart? line = some start → lined.lineStart? later = some next →
    line < later → start < next
  /-- The byte range of a line lies in the text and between two characters at both ends, and in it is the line. -/
  range_cuts : ∀ line range, lined.lineRange? line = some range →
    ∃ before text after, lined.line? line = some text ∧ lined.lineStart? line = some range.start ∧
      lined.text.splitAtByte? range.start = some (before, text ++ after) ∧
      lined.text.splitAtByte? range.stop = some (before ++ text, after)

end LinedText

namespace Document

open LinedText Text

lemma lineCount_eq_length (doc : Document) : doc.lineCount = doc.pieces.length :=
  LinedText.lineCount_eq_length doc.indexed

lemma exists_piece {doc : Document} {row : Nat} (h : row < doc.lineCount) :
    ∃ piece, doc.pieces[row]? = some piece :=
  ⟨_, List.getElem?_eq_getElem (doc.lineCount_eq_length ▸ h)⟩

lemma line?_succ (doc : Document) (row : Nat) :
    doc.line? (row + 1) = (doc.pieces[row]?).map Text.dropReturn :=
  LinedText.line?_succ doc.indexed row

lemma line?_isSome_iff {doc : Document} {line : Nat} :
    (doc.line? line).isSome = true ↔ 1 ≤ line ∧ line ≤ doc.lineCount := by
  cases line with
  | zero => simp [line?, lineRange?]
  | succ row =>
    rw [line?_succ, Option.isSome_map, isSome_getElem?, lineCount_eq_length]
    exact ⟨fun hrow => ⟨Nat.succ_pos row, hrow⟩, And.right⟩

/-- A line and its ending are a piece and the line feed after it. -/
lemma lineD_append_ending (doc : Document) (row : Nat) :
    doc.lineD (row + 1) ++ doc.ending (row + 1)
      = (doc.pieces[row]?).getD [] ++ if row + 1 < doc.lineCount then ['\n'] else [] := by
  have hline : doc.lineD (row + 1) = ((doc.pieces[row]?).getD []).dropReturn := by
    rw [lineD, line?_succ]
    cases doc.pieces[row]? <;> rfl
  rw [hline, ending, Nat.add_sub_cancel, ← List.append_assoc, dropReturn_append_finalReturn]

lemma above_succ (doc : Document) (row : Nat) :
    doc.above (row + 1) = doc.above row ++ (doc.lineD (row + 1) ++ doc.ending (row + 1)) := by
  unfold above
  rw [List.range_succ, List.flatMap_append, List.flatMap_singleton]

lemma above_prefix (doc : Document) {row later : Nat} (h : row ≤ later) : doc.above row <+: doc.above later := by
  induction h with
  | refl => exact List.prefix_rfl
  | step _ ih =>
    rw [above_succ]
    exact ih.trans (List.prefix_append _ _)

/-- The ending of a line before the last one. -/
lemma ending_of_lt {doc : Document} {line : Nat} (h : line < doc.lineCount) :
    doc.ending line = ['\n'] ∨ doc.ending line = ['\r', '\n'] := by
  unfold ending
  rw [if_pos h]
  rcases finalReturn_cases ((doc.pieces[line - 1]?).getD []) with hreturn | hreturn
  · exact Or.inl (by rw [hreturn]; rfl)
  · exact Or.inr (by rw [hreturn]; rfl)

/-- The ending of the last line. -/
lemma ending_lineCount (doc : Document) :
    doc.ending doc.lineCount = [] ∨ doc.ending doc.lineCount = ['\r'] := by
  unfold ending
  rw [if_neg (Nat.lt_irrefl _), List.append_nil]
  exact finalReturn_cases _

/-! ## The text -/

/-- The text above a line is the pieces before it, each with its line feed. -/
lemma above_eq_fedLines {doc : Document} {row : Nat} (h : row < doc.lineCount) :
    doc.above row = fedLines (doc.pieces.take row) := by
  induction row with
  | zero => rfl
  | succ row ih =>
    obtain ⟨piece, hpiece⟩ := exists_piece (Nat.lt_of_succ_lt h)
    rw [above_succ, ih (Nat.lt_of_succ_lt h), lineD_append_ending, if_pos h, List.take_add_one, hpiece,
      Option.toList_some, fedLines_concat, Option.getD_some]

lemma lineCount_pos (doc : Document) : 0 < doc.lineCount := by
  rw [lineCount_eq_length]
  exact List.length_pos_iff.2 (List.splitOn_ne_nil _ _)

/-- The lines with their endings are the text. -/
lemma above_lineCount (doc : Document) : doc.above doc.lineCount = doc.text := by
  obtain ⟨row, hcount⟩ : ∃ row, doc.lineCount = row + 1 := Nat.exists_eq_add_one.2 doc.lineCount_pos
  have hlength : doc.pieces.length = row + 1 := doc.lineCount_eq_length.symm.trans hcount
  have hlast : row < doc.lineCount := hcount ▸ Nat.lt_succ_self row
  obtain ⟨piece, hpiece⟩ := exists_piece hlast
  have htext := text_eq_of_piece hpiece
  -- The last piece has no line feed after it.
  rw [behind, hlength, if_neg (Nat.lt_irrefl _)] at htext
  rw [htext, hcount, above_succ, above_eq_fedLines hlast, lineD_append_ending, hcount,
    if_neg (Nat.lt_irrefl _), hpiece, Option.getD_some]

/-- The text around a line: the lines above it, the line and its ending, and the rest. -/
lemma text_eq_around {doc : Document} {row : Nat} (h : row < doc.lineCount) :
    ∃ rest, doc.text = doc.above row ++ (doc.lineD (row + 1) ++ rest) := by
  obtain ⟨rest, hrest⟩ := doc.above_prefix (Nat.succ_le_of_lt h)
  rw [above_lineCount, above_succ] at hrest
  refine ⟨doc.ending (row + 1) ++ rest, ?_⟩
  rw [← hrest]
  simp only [List.append_assoc]

/-! ## Where the lines start -/

/-- A line starts where the lines above it end. -/
lemma lineStart?_eq_some_iff {doc : Document} {line start : Nat} :
    doc.lineStart? line = some start ↔
      1 ≤ line ∧ line ≤ doc.lineCount ∧ start = (doc.above (line - 1)).byteLength := by
  cases line with
  | zero => simp [lineStart?, lineRange?]
  | succ row =>
    rw [lineStart?_succ doc.indexed, Nat.add_sub_cancel]
    by_cases hrow : row < doc.lineCount
    · rw [pieceStart?_eq (doc.lineCount_eq_length ▸ hrow), ← above_eq_fedLines hrow, Option.some.injEq]
      exact ⟨fun h => ⟨by omega, hrow, h.symm⟩, fun h => h.2.2.symm⟩
    · rw [pieceStart?_eq_none (doc.lineCount_eq_length ▸ Nat.le_of_not_lt hrow)]
      exact ⟨fun h => (Option.some_ne_none _ h.symm).elim, fun h => absurd h.2.1 hrow⟩

lemma lineStart?_isSome_iff {doc : Document} {line : Nat} :
    (doc.lineStart? line).isSome = true ↔ 1 ≤ line ∧ line ≤ doc.lineCount := by
  rw [Option.isSome_iff_exists]
  constructor
  · rintro ⟨start, hstart⟩
    obtain ⟨hpos, hcount, -⟩ := lineStart?_eq_some_iff.1 hstart
    exact ⟨hpos, hcount⟩
  · rintro ⟨hpos, hcount⟩
    exact ⟨_, lineStart?_eq_some_iff.2 ⟨hpos, hcount, rfl⟩⟩

/-- Each line that is not the last one has at least the byte of its line feed. -/
lemma byteLength_above_lt {doc : Document} {row later : Nat} (h : row < later) (hlater : later < doc.lineCount) :
    (doc.above row).byteLength < (doc.above later).byteLength := by
  obtain ⟨rest, hrest⟩ := doc.above_prefix (Nat.succ_le_of_lt h)
  have hending : 0 < (doc.ending (row + 1)).byteLength := by
    rcases ending_of_lt (show row + 1 < doc.lineCount by omega) with hends | hends
    · rw [hends]
      decide
    · rw [hends]
      decide
  rw [← hrest, above_succ]
  simp only [byteLength_append]
  omega

/-- The byte range of a line is where the line stands in the text. -/
lemma lineRange?_eq_some_iff {doc : Document} {line : Nat} {range : ByteRange} :
    doc.lineRange? line = some range ↔ ∃ text, doc.line? line = some text ∧
      doc.lineStart? line = some range.start ∧ range.stop = range.start + text.byteLength := by
  cases line with
  | zero => simp [line?, lineRange?]
  | succ row =>
    rw [line?_succ, lineStart?]
    cases hpiece : doc.pieces[row]? with
    | none =>
      rw [lineRange?_eq_none doc.indexed (List.getElem?_eq_none_iff.1 hpiece)]
      simp
    | some piece =>
      rw [lineRange?_succ doc.indexed hpiece]
      cases range
      simp only [Option.map_some, Option.some.injEq, ByteRange.mk.injEq, exists_eq_left']
      constructor
      · rintro ⟨rfl, rfl⟩
        exact ⟨rfl, rfl⟩
      · rintro ⟨rfl, hstop⟩
        exact ⟨rfl, hstop.symm⟩

lemma partitioned (doc : Document) : doc.Partitioned where
  lineCount_eq := by
    rw [count_lineFeed_bytes, Nat.add_comm, lineCount_eq_length]
    exact length_splitOn_lineFeed doc.text
  line_iff _ := line?_isSome_iff
  no_lineFeed line text htext := by
    cases line with
    | zero => cases htext
    | succ row =>
      rw [line?_succ] at htext
      obtain ⟨piece, hpiece, rfl⟩ := Option.map_eq_some_iff.1 htext
      intro hmem
      exact lineFeed_not_mem_of_mem_splitOn (List.mem_of_getElem? hpiece) (mem_of_mem_dropReturn hmem)
  text_eq := doc.above_lineCount.symm
  ending_inner _ hline := ending_of_lt hline
  ending_last := doc.ending_lineCount
  start_iff _ := lineStart?_isSome_iff
  start_first := lineStart?_eq_some_iff.2 ⟨Nat.le_refl 1, doc.lineCount_pos, rfl⟩
  start_lt line later start next hstart hnext hlt := by
    obtain ⟨hpos, -, rfl⟩ := lineStart?_eq_some_iff.1 hstart
    obtain ⟨-, hcount, rfl⟩ := lineStart?_eq_some_iff.1 hnext
    exact byteLength_above_lt (by omega) (by omega)
  range_cuts line range hrange := by
    obtain ⟨text, htext, hstart, hstop⟩ := lineRange?_eq_some_iff.1 hrange
    obtain ⟨hpos, hcount, habove⟩ := lineStart?_eq_some_iff.1 hstart
    obtain ⟨rest, hrest⟩ := text_eq_around (show line - 1 < doc.lineCount by omega)
    have hline : doc.lineD (line - 1 + 1) = text := by
      rw [Nat.sub_add_cancel hpos, lineD, htext]
      rfl
    rw [hline] at hrest
    refine ⟨doc.above (line - 1), text, rest, htext, hstart, ?_, ?_⟩
    · rw [hrest, habove]
      exact splitAtByte?_append _ _
    · rw [hrest, hstop, habove, ← List.append_assoc, ← byteLength_append]
      exact splitAtByte?_append _ _

end Document

/-! ## Edits -/

/-- An edit of a text: another text, or another indentation of a line. -/
inductive Edit where
  | setText (text : Text)
  | reindentLine (line columns : Nat)

/-- The text and its index after an edit. A line that is not there is not edited. -/
def LinedText.edit (lined : LinedText) : Edit → LinedText
  | .setText text => .ofText text
  | .reindentLine line columns => (lined.reindentLine? line columns).getD lined

/-- The document after an edit. A line that is not there is not edited. -/
def Document.edit (doc : Document) : Edit → Document
  | .setText text => doc.withText text
  | .reindentLine line columns => (doc.reindentLine? line columns).getD doc

namespace LinedText

/-- The step lemma: an edit leaves the index of the text that it leaves. -/
lemma Indexed.edit {lined : LinedText} (h : lined.Indexed) (edit : Edit) : (lined.edit edit).Indexed := by
  cases edit with
  | setText text => exact indexed_ofText text
  | reindentLine line columns =>
    rw [LinedText.edit, reindentLine?]
    cases lined.reindentedText? line columns with
    | none => exact h
    | some text => exact indexed_ofText text

/-- The run lemma: the index stays that of the text, whatever the edits. -/
lemma indexed_edits {lined : LinedText} (h : lined.Indexed) (edits : List Edit) :
    (edits.foldl LinedText.edit lined).Indexed := by
  induction edits generalizing lined with
  | nil => exact h
  | cons edit rest ih => exact ih (h.edit edit)

end LinedText

namespace Document

/-- A document is edited as its text and index are. -/
lemma toLinedText_edit (doc : Document) (edit : Edit) :
    (doc.edit edit).toLinedText = doc.toLinedText.edit edit := by
  cases edit with
  | setText text => rfl
  | reindentLine line columns =>
    rw [Document.edit, LinedText.edit, reindentLine?, LinedText.reindentLine?]
    cases doc.toLinedText.reindentedText? line columns with
    | none => rfl
    | some text => rfl

lemma toLinedText_edits (doc : Document) (edits : List Edit) :
    (edits.foldl Document.edit doc).toLinedText = edits.foldl LinedText.edit doc.toLinedText := by
  induction edits generalizing doc with
  | nil => rfl
  | cons edit rest ih => rw [List.foldl_cons, List.foldl_cons, ih, toLinedText_edit]

/-- After any edits of a text and the index kept with it, the index is that of the text, and the lines that it gives
partition the text. The text and the index of a document are the same after these edits. -/
theorem partitioned_after_edits (buffer : Nat) (text : Text) (edits : List Edit) :
    let lined := edits.foldl LinedText.edit (.ofText text)
    lined.Indexed ∧ lined.Partitioned ∧
      (edits.foldl Document.edit (.new buffer text)).toLinedText = lined := by
  intro lined
  have hindexed : lined.Indexed := LinedText.indexed_edits (LinedText.indexed_ofText text) edits
  exact ⟨hindexed, (Document.mk lined buffer hindexed).partitioned, toLinedText_edits (.new buffer text) edits⟩

/-- Of several carriage returns at the end of a line one belongs to its ending. -/
example : [1, 2, 3].map (Document.new 1 "é\r\n\r\r\nx\r".toList).line?
    = [some "é".toList, some "\r".toList, some "x".toList] := by
  decide

end Document

end TreeIndent
