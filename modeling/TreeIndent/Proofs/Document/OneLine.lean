import TreeIndent.Proofs.Document.Lines

/-!
# Reindenting one line

Giving one line another indentation leaves everything else of the document as it is: the other lines, all line
endings and the number of lines. The starts of the lines below move with the length of the line.

One piece of the text is edited (`reindentPiece`) and the pieces are put together again. The edit brings no line
feed into the piece, so the new text has just the edited pieces (`pieces_of_reindentLine?`), and it neither
uncovers nor hides a carriage return at the end of the piece (`returns_reindentPiece`).
-/

namespace TreeIndent

/-! ## One piece -/

namespace Text

lemma dropReturn_concat_return (t : Text) : dropReturn (t ++ ['\r']) = t := by
  simp [dropReturn, endsInReturn]

lemma finalReturn_concat_return (t : Text) : finalReturn (t ++ ['\r']) = ['\r'] := by
  simp [finalReturn, endsInReturn]

/-- With another indentation a line ends in the character that it ended in, unless it is left empty. -/
lemma endsInReturn_of_reindent {columns : Nat} {t : Text} (h : (t.reindent columns).endsInReturn = true) :
    t.endsInReturn = true := by
  unfold reindent at h
  split at h
  · cases h
  · next hbody =>
    have hlast : ∀ indentation : Text, (indentation ++ t.body).getLast? = t.body.getLast? := by
      intro indentation
      rw [List.getLast?_append_of_ne_nil _ (by simpa using hbody)]
    unfold endsInReturn at h ⊢
    rw [hlast] at h
    rw [← indentation_append_body t, hlast]
    exact h

/-- What is a line, and what its ending, is the same after the edit as before it. -/
lemma returns_reindentPiece (columns : Nat) (piece : Text) :
    (piece.reindentPiece columns).dropReturn = piece.dropReturn.reindent columns ∧
      (piece.reindentPiece columns).finalReturn = piece.finalReturn := by
  unfold reindentPiece
  by_cases hends : piece.endsInReturn = true
  · have hreturn : piece.finalReturn = ['\r'] := if_pos hends
    rw [hreturn]
    exact ⟨dropReturn_concat_return _, finalReturn_concat_return _⟩
  · have hreturn : piece.finalReturn = [] := if_neg hends
    have hline : piece.dropReturn = piece := if_neg hends
    have hnew : ¬ (piece.reindent columns).endsInReturn = true := fun h => hends (endsInReturn_of_reindent h)
    rw [hreturn, hline, List.append_nil]
    exact ⟨if_neg hnew, if_neg hnew⟩

lemma lineFeed_not_mem_reindentPiece {piece : Text} (h : '\n' ∉ piece) (columns : Nat) :
    '\n' ∉ piece.reindentPiece columns := by
  have hbody : '\n' ∉ piece.dropReturn.body := fun hmem =>
    h (mem_of_mem_dropReturn ((List.dropWhile_sublist _).mem hmem))
  have hline : '\n' ∉ piece.dropReturn.reindent columns := by
    unfold reindent
    split
    · exact List.not_mem_nil
    · rw [List.mem_append, not_or]
      exact ⟨fun hmem => absurd (List.eq_of_mem_replicate hmem) (by decide), hbody⟩
  have hreturn : '\n' ∉ piece.finalReturn := by
    rcases piece.finalReturn_cases with hnone | hsome
    · rw [hnone]
      exact List.not_mem_nil
    · rw [hsome]
      decide
  rw [reindentPiece, List.mem_append, not_or]
  exact ⟨hline, hreturn⟩

/-! ## Where pieces start when one is edited -/

section Starts

variable {pieces : List Text} {row i : Nat} (f : Text → Text)

lemma pieceStart?_modify_of_le (h : row ≤ i) :
    pieceStart? (pieces.modify i f) row = pieceStart? pieces row := by
  induction pieces generalizing row i with
  | nil => rw [List.modify_nil]
  | cons piece rest ih =>
    cases row with
    | zero => cases i <;> rfl
    | succ row =>
      cases i with
      | zero => exact absurd h (Nat.not_succ_le_zero _)
      | succ i => rw [List.modify_succ_cons, pieceStart?, pieceStart?, ih (Nat.le_of_succ_le_succ h)]

/-- Behind the edited piece, starts move by as much as its length changes. -/
lemma pieceStart?_modify_of_lt {piece : Text} {old new : Nat} (h : i < row) (hpiece : pieces[i]? = some piece)
    (hlength : (f piece).byteLength + old = piece.byteLength + new) :
    (pieceStart? (pieces.modify i f) row).map (· + old) = (pieceStart? pieces row).map (· + new) := by
  induction pieces generalizing row i with
  | nil => cases hpiece
  | cons first rest ih =>
    obtain ⟨r, rfl⟩ : ∃ r, row = r + 1 := ⟨row - 1, by omega⟩
    cases i with
    | zero =>
      cases hpiece
      rw [List.modify_zero_cons, pieceStart?, pieceStart?, Option.map_map, Option.map_map]
      congr 1
      funext start
      simp only [Function.comp_apply]
      omega
    | succ i =>
      -- The start counts on from the first piece, before which nothing changes.
      have hshift : ∀ n, ((· + n) ∘ (first.byteLength + 1 + ·)) = ((first.byteLength + 1 + ·) ∘ (· + n)) := by
        intro n
        funext start
        simp only [Function.comp_apply, Nat.add_assoc]
      have hrest := ih (Nat.lt_of_succ_lt_succ h) hpiece
      rw [List.modify_succ_cons, pieceStart?, pieceStart?, Option.map_map, Option.map_map, hshift, hshift,
        ← Option.map_map, ← Option.map_map, hrest]

end Starts

end Text

namespace Document

open LinedText Text

/-! ## The document after the edit -/

/-- The second document is the first with one line indented to so many columns, and nothing else changed. -/
structure ReindentedLine (doc changed : Document) (line columns : Nat) : Prop where
  lineCount : changed.lineCount = doc.lineCount
  buffer : changed.buffer = doc.buffer
  elsewhere : ∀ k, k ≠ line → changed.line? k = doc.line? k
  here : changed.line? line = (doc.line? line).map (Text.reindent columns)
  ending : ∀ k, changed.ending k = doc.ending k
  start_of_le : ∀ k ≤ line, changed.lineStart? k = doc.lineStart? k
  /-- The starts below the line move by as much as its length changes. -/
  start_of_lt : ∀ k, line < k →
    (changed.lineStart? k).map (· + (doc.lineD line).byteLength)
      = (doc.lineStart? k).map (· + (changed.lineD line).byteLength)

lemma reindentLine?_eq_some_iff {doc changed : Document} {line columns : Nat} :
    doc.reindentLine? line columns = some changed ↔ 1 ≤ line ∧ line ≤ doc.lineCount ∧
      changed = doc.withText
        (['\n'].intercalate (doc.pieces.modify (line - 1) (reindentPiece columns))) := by
  cases line with
  | zero => simp [reindentLine?, reindentedText?, lineRange?]
  | succ row =>
    have hpos : 1 ≤ row + 1 := Nat.succ_pos row
    rw [reindentLine?, Nat.add_sub_cancel]
    by_cases hrow : row < doc.lineCount
    · rw [reindentedText?_succ doc.indexed (doc.lineCount_eq_length ▸ hrow), Option.map_some, Option.some.injEq]
      exact ⟨fun h => ⟨hpos, hrow, h.symm⟩, fun h => h.2.2.symm⟩
    · rw [reindentedText?_eq_none doc.indexed (doc.lineCount_eq_length ▸ Nat.le_of_not_lt hrow), Option.map_none]
      exact ⟨fun h => (Option.some_ne_none _ h.symm).elim, fun h => absurd h.2.1 hrow⟩

/-- The new text has the edited pieces: none of them has a line feed. -/
lemma pieces_of_reindentLine? {doc changed : Document} {line columns : Nat}
    (h : doc.reindentLine? line columns = some changed) :
    changed.pieces = doc.pieces.modify (line - 1) (reindentPiece columns) := by
  obtain ⟨-, -, rfl⟩ := reindentLine?_eq_some_iff.1 h
  refine List.splitOn_intercalate '\n' ?_ ?_
  · intro piece hpiece
    obtain ⟨row, hrow⟩ := List.mem_iff_getElem?.1 hpiece
    rw [List.getElem?_modify] at hrow
    obtain ⟨old, hold, rfl⟩ := Option.map_eq_some_iff.1 hrow
    have hplain : '\n' ∉ old := lineFeed_not_mem_of_mem_splitOn (List.mem_of_getElem? hold)
    split
    · exact lineFeed_not_mem_reindentPiece hplain columns
    · exact hplain
  · rw [← List.length_pos_iff, List.length_modify, ← lineCount_eq_length]
    exact doc.lineCount_pos

lemma finalReturn_modify_reindentPiece (pieces : List Text) (i columns row : Nat) :
    (((pieces.modify i (reindentPiece columns))[row]?).getD []).finalReturn
      = ((pieces[row]?).getD []).finalReturn := by
  rw [List.getElem?_modify]
  cases pieces[row]? with
  | none => rfl
  | some piece =>
    show (if i = row then piece.reindentPiece columns else piece).finalReturn = piece.finalReturn
    split
    · exact (piece.returns_reindentPiece columns).2
    · rfl

section Changed

variable {doc changed : Document} {line columns : Nat} (h : doc.reindentLine? line columns = some changed)

include h

lemma exists_piece_of_reindentLine? : ∃ piece, doc.pieces[line - 1]? = some piece := by
  obtain ⟨hpos, hcount, -⟩ := reindentLine?_eq_some_iff.1 h
  exact exists_piece (by omega)

lemma lineCount_of_reindentLine? : changed.lineCount = doc.lineCount := by
  rw [lineCount_eq_length, lineCount_eq_length, pieces_of_reindentLine? h, List.length_modify]

lemma line?_of_reindentLine? : changed.line? line = (doc.line? line).map (Text.reindent columns) := by
  obtain ⟨piece, hpiece⟩ := exists_piece_of_reindentLine? h
  obtain ⟨hpos, -, -⟩ := reindentLine?_eq_some_iff.1 h
  obtain ⟨row, rfl⟩ : ∃ row, line = row + 1 := ⟨line - 1, by omega⟩
  rw [Nat.add_sub_cancel] at hpiece
  rw [line?_succ, line?_succ, pieces_of_reindentLine? h, Nat.add_sub_cancel, List.getElem?_modify_eq, hpiece]
  exact congrArg some (piece.returns_reindentPiece columns).1

lemma line?_of_reindentLine?_of_ne {k : Nat} (hk : k ≠ line) : changed.line? k = doc.line? k := by
  obtain ⟨hpos, -, -⟩ := reindentLine?_eq_some_iff.1 h
  cases k with
  | zero => rfl
  | succ row =>
    rw [line?_succ, line?_succ, pieces_of_reindentLine? h, List.getElem?_modify_ne]
    omega

lemma ending_of_reindentLine? (k : Nat) : changed.ending k = doc.ending k := by
  unfold ending
  rw [lineCount_of_reindentLine? h, pieces_of_reindentLine? h, finalReturn_modify_reindentPiece]

lemma lineStart?_of_reindentLine?_of_le {k : Nat} (hk : k ≤ line) : changed.lineStart? k = doc.lineStart? k := by
  cases k with
  | zero => rfl
  | succ row =>
    rw [lineStart?_succ changed.indexed, lineStart?_succ doc.indexed, pieces_of_reindentLine? h]
    exact pieceStart?_modify_of_le _ (by omega)

lemma lineStart?_of_reindentLine?_of_lt {k : Nat} (hk : line < k) :
    (changed.lineStart? k).map (· + (doc.lineD line).byteLength)
      = (doc.lineStart? k).map (· + (changed.lineD line).byteLength) := by
  obtain ⟨piece, hpiece⟩ := exists_piece_of_reindentLine? h
  obtain ⟨hpos, -, -⟩ := reindentLine?_eq_some_iff.1 h
  obtain ⟨below, rfl⟩ : ∃ below, k = below + 1 := ⟨k - 1, by omega⟩
  rw [lineStart?_succ changed.indexed, lineStart?_succ doc.indexed, pieces_of_reindentLine? h]
  refine pieceStart?_modify_of_lt _ (by omega) hpiece ?_
  -- A piece is its line and the carriage return after it, which stays.
  have hline : doc.line? line = some piece.dropReturn := by
    rw [show line = line - 1 + 1 by omega, line?_succ, hpiece]
    rfl
  have hold : doc.lineD line = piece.dropReturn := by
    rw [lineD, hline]
    rfl
  have hnew : changed.lineD line = piece.dropReturn.reindent columns := by
    rw [lineD, line?_of_reindentLine? h, hline]
    rfl
  have hsplit := piece.byteLength_dropReturn_add
  rw [hold, hnew, reindentPiece, byteLength_append]
  omega

/-- After the edit nothing but the one line has changed. -/
lemma reindentedLine_of_reindentLine? : doc.ReindentedLine changed line columns where
  lineCount := lineCount_of_reindentLine? h
  buffer := by
    obtain ⟨-, -, rfl⟩ := reindentLine?_eq_some_iff.1 h
    rfl
  elsewhere _ hk := line?_of_reindentLine?_of_ne h hk
  here := line?_of_reindentLine? h
  ending := ending_of_reindentLine? h
  start_of_le _ hk := lineStart?_of_reindentLine?_of_le h hk
  start_of_lt _ hk := lineStart?_of_reindentLine?_of_lt h hk

end Changed

/-- Reindenting a line succeeds just if there is such a line. If it fails, the document stays as it is; if it
succeeds, that line gets its new indentation and nothing else changes. -/
theorem reindentLine_changes_one_line (doc : Document) (line columns : Nat) :
    ((doc.reindentLine? line columns).isSome = true ↔ 1 ≤ line ∧ line ≤ doc.lineCount) ∧
    (doc.reindentLine? line columns = none → doc.edit (.reindentLine line columns) = doc) ∧
    ∀ changed, doc.reindentLine? line columns = some changed →
      doc.edit (.reindentLine line columns) = changed ∧ doc.ReindentedLine changed line columns := by
  refine ⟨?_, ?_, ?_⟩
  · rw [Option.isSome_iff_exists]
    constructor
    · rintro ⟨changed, hchanged⟩
      obtain ⟨hpos, hcount, -⟩ := reindentLine?_eq_some_iff.1 hchanged
      exact ⟨hpos, hcount⟩
    · rintro ⟨hpos, hcount⟩
      exact ⟨_, reindentLine?_eq_some_iff.2 ⟨hpos, hcount, rfl⟩⟩
  · intro hnone
    rw [edit, hnone]
    rfl
  · intro changed hchanged
    refine ⟨?_, reindentedLine_of_reindentLine? hchanged⟩
    rw [edit, hchanged]
    rfl

/-- A line that holds a carriage return only keeps it, and the one of its ending too. -/
example : ((Document.new 1 "é\r\n \t\r\r\nb".toList).edit (.reindentLine 2 4)).text
    = "é\r\n    \r\r\nb".toList := by
  decide

end Document

end TreeIndent
