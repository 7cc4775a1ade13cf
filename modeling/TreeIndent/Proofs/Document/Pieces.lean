import TreeIndent.Text.Lined
import Mathlib.Data.List.Basic
import Mathlib.Tactic.Common

/-!
# The index of a text and its pieces

The pieces of a text are what stands between its line feeds. They say without offsets what the lines are: a line
is a piece without the carriage return at its end. Here the two views of a text are tied together. Where the index is
that of the text,

* there are as many lines as pieces, and each line starts where its piece starts (`lineStart?_succ`);
* the byte range of a line lies between two characters at both ends, and what stands in it is the line of the piece
  (`lineRange?_succ`, `line?_succ`);
* giving a line another indentation is giving it to its piece (`reindentedText?_succ`).
-/

namespace TreeIndent

/-! ## Bytes of single characters -/

namespace Text

/-- A byte below 128 stands for one character: a character of a single byte has its own byte, and the bytes of the
longer ones are 128 and up. -/
lemma count_utf8EncodeChar {d : Char} (hd : d.val.toNat < 128) (c : Char) :
    (String.utf8EncodeChar c).count (UInt8.ofNat d.val.toNat) = if c = d then 1 else 0 := by
  have hchar : c = d ↔ c.val.toNat = d.val.toNat := by
    rw [← Char.val_inj, ← UInt32.toNat_inj]
  have hbyte : ∀ n < 256, UInt8.ofNat n = UInt8.ofNat d.val.toNat ↔ n = d.val.toNat := by
    intro n hn
    rw [← UInt8.toNat_inj, UInt8.toNat_ofNat_of_lt' hn,
      UInt8.toNat_ofNat_of_lt' (show d.val.toNat < 256 by omega)]
  have hlong : ∀ n, 128 ≤ n → n < 256 → UInt8.ofNat d.val.toNat ≠ UInt8.ofNat n := by
    intro n hlow hhigh heq
    have hsame := (hbyte n hhigh).1 heq.symm
    omega
  simp only [hchar]
  unfold String.utf8EncodeChar
  generalize c.val.toNat = code
  dsimp only
  split
  · next hshort =>
    rw [List.count_singleton]
    simp only [beq_iff_eq, hbyte code (show code < 256 by omega)]
  · next hlarge =>
    rw [if_neg (show code ≠ d.val.toNat by omega), List.count_eq_zero]
    split
    · simp only [List.mem_cons, List.not_mem_nil, or_false, not_or]
      exact ⟨hlong _ (by omega) (by omega), hlong _ (by omega) (by omega)⟩
    · split
      · simp only [List.mem_cons, List.not_mem_nil, or_false, not_or]
        exact ⟨hlong _ (by omega) (by omega), hlong _ (by omega) (by omega), hlong _ (by omega) (by omega)⟩
      · simp only [List.mem_cons, List.not_mem_nil, or_false, not_or]
        exact ⟨hlong _ (by omega) (by omega), hlong _ (by omega) (by omega), hlong _ (by omega) (by omega),
          hlong _ (by omega) (by omega)⟩

lemma bytes_append (s t : Text) : (s ++ t).bytes = s.bytes ++ t.bytes :=
  List.flatMap_append

/-- A text has as many bytes of the line feed as line feeds. -/
lemma count_lineFeed_bytes (t : Text) : t.bytes.count lineFeed = t.count '\n' := by
  have hchar : ∀ c, (String.utf8EncodeChar c).count lineFeed = if c = '\n' then 1 else 0 :=
    count_utf8EncodeChar (d := '\n') (by decide)
  induction t with
  | nil => rfl
  | cons c t ih =>
    have hbytes : bytes (c :: t) = String.utf8EncodeChar c ++ bytes t := List.flatMap_cons
    rw [hbytes, List.count_append, ih, hchar, List.count_cons, Nat.add_comm]
    simp only [beq_iff_eq]

/-! ## Carriage returns -/

/-- Whether the text ends in a carriage return. -/
def endsInReturn (t : Text) : Bool :=
  t.getLast? == some '\r'

/-- The text without one carriage return at its end. -/
def dropReturn (t : Text) : Text :=
  if t.endsInReturn then t.dropLast else t

/-- The carriage return at the end of a text, or nothing. -/
def finalReturn (t : Text) : Text :=
  if t.endsInReturn then ['\r'] else []

/-- A piece is its line and the carriage return at its end, if there is one. -/
lemma dropReturn_append_finalReturn (t : Text) : t.dropReturn ++ t.finalReturn = t := by
  unfold dropReturn finalReturn
  by_cases hends : t.endsInReturn = true
  · rw [if_pos hends, if_pos hends]
    unfold endsInReturn at hends
    exact List.dropLast_append_getLast? _ (beq_iff_eq.1 hends)
  · rw [if_neg hends, if_neg hends, List.append_nil]

lemma byteLength_dropReturn_add (t : Text) : t.dropReturn.byteLength + t.finalReturn.byteLength = t.byteLength := by
  rw [← byteLength_append, dropReturn_append_finalReturn]

lemma mem_of_mem_dropReturn {t : Text} {c : Char} (h : c ∈ t.dropReturn) : c ∈ t := by
  rw [← dropReturn_append_finalReturn t]
  exact List.mem_append_left _ h

lemma finalReturn_cases (t : Text) : t.finalReturn = [] ∨ t.finalReturn = ['\r'] := by
  unfold finalReturn
  split
  · exact Or.inr rfl
  · exact Or.inl rfl

/-- The byte of the carriage return is the last byte of a text just if the carriage return is its last
character. -/
lemma getLast?_bytes_eq_iff {t : Text} :
    t.bytes.getLast? = some carriageReturn ↔ t.endsInReturn = true := by
  have hchar : ∀ c, (String.utf8EncodeChar c).getLast? = some carriageReturn ↔ c = '\r' := by
    intro c
    constructor
    · intro hlast
      have hcount := count_utf8EncodeChar (d := '\r') (by decide) c
      have hmem : carriageReturn ∈ String.utf8EncodeChar c := List.mem_of_getLast? hlast
      by_contra hne
      rw [if_neg hne, List.count_eq_zero] at hcount
      exact hcount hmem
    · rintro rfl
      decide
  rcases List.eq_nil_or_concat' t with rfl | ⟨front, c, rfl⟩
  · decide
  · have hbytes : bytes [c] = String.utf8EncodeChar c := by simp [bytes]
    have hne : String.utf8EncodeChar c ≠ [] := String.utf8EncodeChar_ne_nil
    unfold endsInReturn
    rw [bytes_append, hbytes, List.getLast?_append_of_ne_nil _ hne, hchar, List.getLast?_concat, beq_iff_eq,
      Option.some.injEq]

/-! ## Pieces -/

/-- There is one piece more than there are line feeds. -/
lemma length_splitOn_lineFeed (t : Text) : (t.splitOn '\n').length = t.count '\n' + 1 := by
  induction t with
  | nil => rfl
  | cons c t ih =>
    rw [List.splitOn_cons_eq_if_modifyHead, List.count_cons]
    by_cases hc : (c == '\n') = true
    · rw [if_pos hc, if_pos hc, List.length_cons, ih]
    · rw [if_neg hc, if_neg hc, List.length_modifyHead, ih, Nat.add_zero]

/-- No piece has a line feed. -/
lemma lineFeed_not_mem_of_mem_splitOn {t piece : Text} (h : piece ∈ t.splitOn '\n') : '\n' ∉ piece := by
  induction t generalizing piece with
  | nil =>
    rw [List.splitOn_nil, List.mem_singleton] at h
    rw [h]
    exact List.not_mem_nil
  | cons c t ih =>
    rw [List.splitOn_cons_eq_if_modifyHead] at h
    split at h
    · rcases List.mem_cons.1 h with rfl | hrest
      · exact List.not_mem_nil
      · exact ih hrest
    · next hc =>
      -- The character goes to the front of the first piece, and it is no line feed.
      cases hpieces : t.splitOn '\n' with
      | nil => exact absurd hpieces (List.splitOn_ne_nil _ _)
      | cons first rest =>
        rw [hpieces, List.modifyHead_cons] at h
        rcases List.mem_cons.1 h with rfl | hrest
        · have hfirst : '\n' ∉ first := ih (hpieces ▸ List.mem_cons_self ..)
          rw [List.mem_cons, not_or]
          exact ⟨fun heq => hc (beq_iff_eq.2 heq.symm), hfirst⟩
        · exact ih (hpieces ▸ List.mem_cons_of_mem _ hrest)

/-- The text between two line feeds with another indentation; a carriage return at its end stays. -/
def reindentPiece (columns : Nat) (piece : Text) : Text :=
  piece.dropReturn.reindent columns ++ piece.finalReturn

/-- Some pieces with a line feed after each of them. -/
def fedLines (pieces : List Text) : Text :=
  pieces.flatMap (· ++ ['\n'])

lemma fedLines_cons (piece : Text) (rest : List Text) :
    fedLines (piece :: rest) = piece ++ ['\n'] ++ fedLines rest :=
  List.flatMap_cons

lemma fedLines_concat (pieces : List Text) (last : Text) :
    fedLines (pieces ++ [last]) = fedLines pieces ++ (last ++ ['\n']) := by
  unfold fedLines
  rw [List.flatMap_append, List.flatMap_singleton]

/-- Pieces with line feeds between them, cut before one of the pieces. -/
lemma intercalate_eq_fedLines_append {pieces : List Text} {row : Nat} (h : row < pieces.length) :
    ['\n'].intercalate pieces = fedLines (pieces.take row) ++ ['\n'].intercalate (pieces.drop row) := by
  induction pieces generalizing row with
  | nil => exact absurd h (Nat.not_lt_zero _)
  | cons piece rest ih =>
    cases row with
    | zero => rfl
    | succ row =>
      have hrow : row < rest.length := Nat.lt_of_succ_lt_succ h
      cases rest with
      | nil => exact absurd hrow (Nat.not_lt_zero _)
      | cons next rest =>
        rw [List.intercalate_cons_cons, ih hrow, List.take_succ_cons, List.drop_succ_cons, fedLines_cons]
        exact (List.append_assoc ..).symm

/-- What stands after a piece: a line feed and the pieces behind it, and after the last piece nothing. -/
def behind (pieces : List Text) (row : Nat) : Text :=
  if row + 1 < pieces.length then '\n' :: ['\n'].intercalate (pieces.drop (row + 1)) else []

lemma behind_cases (pieces : List Text) (row : Nat) :
    behind pieces row = [] ∨ ∃ t, behind pieces row = '\n' :: t := by
  unfold behind
  split
  · exact Or.inr ⟨_, rfl⟩
  · exact Or.inl rfl

/-- Pieces with line feeds between them, cut around one of the pieces. -/
lemma intercalate_eq_around {pieces : List Text} {row : Nat} {piece : Text} (h : pieces[row]? = some piece) :
    ['\n'].intercalate pieces = fedLines (pieces.take row) ++ (piece ++ behind pieces row) := by
  obtain ⟨hrow, rfl⟩ := List.getElem?_eq_some_iff.1 h
  rw [intercalate_eq_fedLines_append hrow, List.drop_eq_getElem_cons hrow]
  congr 1
  unfold behind
  cases hdrop : pieces.drop (row + 1) with
  | nil =>
    rw [if_neg (Nat.not_lt.2 (List.drop_eq_nil_iff.1 hdrop)), List.append_nil]
    exact List.append_nil _
  | cons next rest =>
    have hlt : row + 1 < pieces.length := by
      by_contra hge
      rw [List.drop_eq_nil_of_le (Nat.le_of_not_lt hge)] at hdrop
      cases hdrop
    rw [if_pos hlt, List.intercalate_cons_cons]
    exact List.append_assoc ..

/-! ## Where pieces start -/

/-- The byte offset at which one of several pieces starts, with one line feed between them. -/
def pieceStart? : List Text → Nat → Option Nat
  | [], _ => none
  | _ :: _, 0 => some 0
  | piece :: rest, row + 1 => (pieceStart? rest row).map (piece.byteLength + 1 + ·)

lemma pieceStart?_eq {pieces : List Text} {row : Nat} (h : row < pieces.length) :
    pieceStart? pieces row = some (Text.byteLength (fedLines (pieces.take row))) := by
  induction pieces generalizing row with
  | nil => exact absurd h (Nat.not_lt_zero _)
  | cons piece rest ih =>
    cases row with
    | zero => rfl
    | succ row =>
      have hfeed : Text.byteLength ['\n'] = 1 := by decide
      rw [pieceStart?, ih (Nat.lt_of_succ_lt_succ h), Option.map_some, List.take_succ_cons, fedLines_cons,
        Text.byteLength_append, Text.byteLength_append, hfeed]

lemma pieceStart?_eq_none {pieces : List Text} {row : Nat} (h : pieces.length ≤ row) :
    pieceStart? pieces row = none := by
  induction pieces generalizing row with
  | nil => rfl
  | cons piece rest ih =>
    cases row with
    | zero => exact absurd h (Nat.not_succ_le_zero _)
    | succ row => rw [pieceStart?, ih (Nat.le_of_succ_le_succ h), Option.map_none]

/-- The index of a text lists where its pieces start. -/
lemma getElem?_startsAfter (t : Text) (offset row : Nat) :
    (offset :: startsAfter offset t)[row]? = (pieceStart? (t.splitOn '\n') row).map (offset + ·) := by
  induction t generalizing offset row with
  | nil => cases row <;> rfl
  | cons c t ih =>
    rw [List.splitOn_cons_eq_if_modifyHead, startsAfter]
    by_cases hc : c = '\n'
    · have hsize : c.utf8Size = 1 := by
        rw [hc]
        decide
      rw [if_pos hc, if_pos (beq_iff_eq.2 hc), hsize]
      cases row with
      | zero => rfl
      | succ row =>
        rw [List.getElem?_cons_succ, ih, pieceStart?, Option.map_map]
        congr 1
        funext start
        exact (Nat.add_assoc ..).trans (congrArg _ (by rw [byteLength_nil, Nat.zero_add]))
    · rw [if_neg hc, if_neg (fun h => hc (beq_iff_eq.1 h))]
      cases hpieces : t.splitOn '\n' with
      | nil => exact absurd hpieces (List.splitOn_ne_nil _ _)
      | cons first rest =>
        cases row with
        | zero => rfl
        | succ row =>
          -- The character lengthens the first piece, and the offset from which the rest is counted.
          have hnext := ih (offset + c.utf8Size) (row + 1)
          rw [List.getElem?_cons_succ] at hnext ⊢
          rw [hnext, hpieces, List.modifyHead_cons, pieceStart?, pieceStart?, Option.map_map, Option.map_map]
          congr 1
          funext start
          show offset + c.utf8Size + (byteLength first + 1 + start)
            = offset + (c.utf8Size + byteLength first + 1 + start)
          omega

lemma length_startsAfter (t : Text) (offset : Nat) : (startsAfter offset t).length = t.count '\n' := by
  induction t generalizing offset with
  | nil => rfl
  | cons c t ih =>
    rw [startsAfter, List.count_cons]
    by_cases hc : c = '\n'
    · rw [if_pos hc, if_pos (beq_iff_eq.2 hc), List.length_cons, ih]
    · rw [if_neg hc, if_neg (fun h => hc (beq_iff_eq.1 h)), ih, Nat.add_zero]

/-- The byte before the stop of a piece is the last byte of the piece. -/
lemma getElem?_bytes_around (before : Text) {piece : Text} (hpiece : piece ≠ []) (rest : Text) :
    (bytes (before ++ (piece ++ rest)))[before.byteLength + piece.byteLength - 1]? = piece.bytes.getLast? := by
  have hpos : 0 < piece.bytes.length := by
    rw [length_bytes]
    cases piece with
    | nil => exact absurd rfl hpiece
    | cons c t =>
      have hsize := c.utf8Size_pos
      rw [byteLength_cons]
      omega
  have hoffset : before.byteLength + piece.byteLength - 1 = before.bytes.length + (piece.bytes.length - 1) := by
    rw [length_bytes] at hpos ⊢
    rw [length_bytes]
    omega
  rw [bytes_append, bytes_append, hoffset, List.getElem?_append_right (Nat.le_add_right ..),
    Nat.add_sub_cancel_left, List.getElem?_append_left (by omega), List.getLast?_eq_getElem?]

end Text

/-! ## The index -/

namespace LinedText

open Text

/-- The text between the line feeds; there is always at least one piece. -/
def pieces (lined : LinedText) : List Text :=
  lined.text.splitOn '\n'

lemma intercalate_pieces (lined : LinedText) : ['\n'].intercalate lined.pieces = lined.text :=
  List.intercalate_splitOn _

section Piece

variable {lined : LinedText} {row : Nat} {piece : Text} (hpiece : lined.pieces[row]? = some piece)

include hpiece

lemma text_eq_of_piece :
    lined.text = fedLines (lined.pieces.take row) ++ (piece ++ behind lined.pieces row) :=
  lined.intercalate_pieces.symm.trans (intercalate_eq_around hpiece)

lemma text_eq_of_line :
    lined.text = fedLines (lined.pieces.take row) ++
      (piece.dropReturn ++ (piece.finalReturn ++ behind lined.pieces row)) := by
  rw [← List.append_assoc piece.dropReturn, dropReturn_append_finalReturn]
  exact text_eq_of_piece hpiece

/-- What stands in the range of a line is its piece without the carriage return. -/
lemma slice?_of_piece :
    let start := byteLength (fedLines (lined.pieces.take row))
    lined.text.slice? ⟨start, start + piece.dropReturn.byteLength⟩ = some piece.dropReturn := by
  intro start
  rw [text_eq_of_line hpiece]
  exact slice?_append ..

/-- In front of the end of a piece there is the byte of a carriage return just if the piece ends in one. -/
lemma returns_of_piece :
    let start := byteLength (fedLines (lined.pieces.take row))
    (decide (start < start + piece.byteLength) &&
      lined.text.bytes[start + piece.byteLength - 1]? == some carriageReturn) = piece.endsInReturn := by
  intro start
  rw [text_eq_of_piece hpiece]
  cases piece with
  | nil => simp [endsInReturn]
  | cons c t =>
    have hsize := c.utf8Size_pos
    have hlt : start < start + byteLength (c :: t) := by
      rw [byteLength_cons]
      omega
    rw [getElem?_bytes_around _ (List.cons_ne_nil c t), decide_eq_true hlt, Bool.true_and, Bool.eq_iff_iff,
      beq_iff_eq, getLast?_bytes_eq_iff]

end Piece

section Indexed

variable {lined : LinedText} (h : lined.Indexed)

include h

lemma getElem?_starts (row : Nat) : lined.starts[row]? = pieceStart? lined.pieces row := by
  have hstart := getElem?_startsAfter lined.text 0 row
  rw [show (fun start => 0 + start) = id from funext Nat.zero_add, Option.map_id_fun, id] at hstart
  rw [h]
  exact hstart

lemma lineCount_eq_length : lined.lineCount = lined.pieces.length := by
  unfold lineCount pieces
  rw [h, lineStarts, List.length_cons, length_startsAfter, length_splitOn_lineFeed]

/-- Behind a piece there is a line feed and the next line, or the end of the text. -/
lemma stop_of_piece {row : Nat} {piece : Text} (hpiece : lined.pieces[row]? = some piece) :
    (lined.starts[row + 1]?).elim lined.text.byteLength (· - 1)
      = byteLength (fedLines (lined.pieces.take row)) + piece.byteLength := by
  rw [getElem?_starts h]
  by_cases hnext : row + 1 < lined.pieces.length
  · have hfeed : byteLength ['\n'] = 1 := by decide
    rw [pieceStart?_eq hnext, Option.elim_some, List.take_add_one, hpiece, Option.toList_some, fedLines_concat,
      byteLength_append, byteLength_append, hfeed]
    omega
  · rw [pieceStart?_eq_none (Nat.le_of_not_lt hnext), Option.elim_none, text_eq_of_piece hpiece, behind,
      if_neg hnext, List.append_nil, byteLength_append]

/-- A line stops where its piece stops, the carriage return of its ending apart. -/
lemma lineRange?_succ {row : Nat} {piece : Text} (hpiece : lined.pieces[row]? = some piece) :
    let start := byteLength (fedLines (lined.pieces.take row))
    lined.lineRange? (row + 1) = some ⟨start, start + piece.dropReturn.byteLength⟩ := by
  intro start
  obtain ⟨hrow, -⟩ := List.getElem?_eq_some_iff.1 hpiece
  rw [lineRange?, getElem?_starts h row, pieceStart?_eq hrow, Option.map_some]
  dsimp only
  rw [stop_of_piece h hpiece, returns_of_piece hpiece]
  have hsplit := piece.byteLength_dropReturn_add
  unfold finalReturn at hsplit
  by_cases hends : piece.endsInReturn = true
  · have hsize : byteLength ['\r'] = 1 := by decide
    rw [if_pos hends, hsize] at hsplit
    rw [if_pos hends, Option.some.injEq, ByteRange.mk.injEq]
    exact ⟨rfl, by omega⟩
  · rw [if_neg hends, byteLength_nil, Nat.add_zero] at hsplit
    rw [if_neg hends, hsplit]

lemma lineRange?_eq_none {row : Nat} (hrow : lined.pieces.length ≤ row) : lined.lineRange? (row + 1) = none := by
  rw [lineRange?, getElem?_starts h row, pieceStart?_eq_none hrow, Option.map_none]

/-- A line starts where its piece starts. -/
lemma lineStart?_succ (row : Nat) : lined.lineStart? (row + 1) = pieceStart? lined.pieces row := by
  unfold lineStart?
  by_cases hrow : row < lined.pieces.length
  · rw [lineRange?_succ h (List.getElem?_eq_getElem hrow), pieceStart?_eq hrow, Option.map_some]
  · rw [lineRange?_eq_none h (Nat.le_of_not_lt hrow), pieceStart?_eq_none (Nat.le_of_not_lt hrow), Option.map_none]

/-- A line is its piece without the carriage return. -/
lemma line?_succ (row : Nat) : lined.line? (row + 1) = (lined.pieces[row]?).map dropReturn := by
  unfold line?
  cases hpiece : lined.pieces[row]? with
  | none => rw [lineRange?_eq_none h (List.getElem?_eq_none_iff.1 hpiece)]; rfl
  | some piece => rw [lineRange?_succ h hpiece, Option.bind_some, slice?_of_piece hpiece, Option.map_some]

/-- Giving a line another indentation is giving it to its piece. -/
lemma reindentedText?_succ {row : Nat} (hrow : row < lined.pieces.length) (columns : Nat) :
    lined.reindentedText? (row + 1) columns
      = some (['\n'].intercalate (lined.pieces.modify row (reindentPiece columns))) := by
  obtain ⟨piece, hpiece⟩ : ∃ piece, lined.pieces[row]? = some piece := ⟨_, List.getElem?_eq_getElem hrow⟩
  have hmodified : (lined.pieces.modify row (reindentPiece columns))[row]? = some (piece.reindentPiece columns) := by
    rw [List.getElem?_modify_eq, hpiece]
    rfl
  -- Before and behind the piece nothing changes.
  have hbefore : (lined.pieces.modify row (reindentPiece columns)).take row = lined.pieces.take row := by
    rw [List.take_modify, List.modify_eq_self (List.length_take_le ..)]
  have hbehind : behind (lined.pieces.modify row (reindentPiece columns)) row = behind lined.pieces row := by
    unfold behind
    rw [List.length_modify, List.drop_modify_of_lt _ _ _ _ (Nat.lt_succ_self row)]
  unfold reindentedText?
  rw [lineRange?_succ h hpiece, Option.bind_some, slice?_of_piece hpiece, Option.bind_some,
    intercalate_eq_around hmodified, hbefore, hbehind, text_eq_of_line hpiece]
  refine (replace?_append ..).trans ?_
  rw [reindentPiece, List.append_assoc]

lemma reindentedText?_eq_none {row : Nat} (hrow : lined.pieces.length ≤ row) (columns : Nat) :
    lined.reindentedText? (row + 1) columns = none := by
  unfold reindentedText?
  rw [lineRange?_eq_none h hrow, Option.bind_none]

end Indexed

end LinedText

end TreeIndent
