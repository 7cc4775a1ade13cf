import TreeIndent.Proofs.Document.Points
import TreeIndent.Tree.Place
import TreeIndent.Proofs.Text.Columns

/-!
# Delimiters and the ends of their lines

The delimiter at an edge of a node is the first child that acts as one. It ends its line if nothing comes after it
there but white space and more of the delimiter's own characters.

* `Document.RestAt`: what comes after a point up to the end of its row, read off the text by the points of its
  offsets. `restAt?` finds it by rows and columns (`restAt?_eq_some_iff`).
* `onlyDelimiter_restOfLine`: the text that is looked at, the carriage return of the line's ending apart. It is
  taken from the row on which the child starts and from the column at which it ends.

`delimiter?_exact` says which child is found and what decides whether it ends its line. For a child on one row that
is what comes after the child. A child that spreads over several rows is looked for on the wrong row: the arguments
of a call are said to end their line where a semicolon follows them (`spreadCall_not_exact`).
-/

namespace TreeIndent

/-! ## What comes after a point -/

namespace Document

/-- The text after a point, up to the end of its row. Only a point between two characters has such a text. -/
def RestAt (doc : Document) (p : Point) (rest : Text) : Prop :=
  ∃ before after : Text, doc.text = before ++ after ∧ doc.text.pointAt before.byteLength = p ∧
    rest = after.takeWhile (· ≠ '\n')

/-- The point lies in the document, between two characters or at an end of the text. -/
def HasPoint (doc : Document) (p : Point) : Prop :=
  ∃ rest, doc.RestAt p rest

/-- The text after a point, by the row and the column of the point. -/
def restAt? (doc : Document) (p : Point) : Option Text :=
  (doc.pieces[p.row]?).bind fun piece => piece.dropBytes? p.column

/-- What comes before the next line feed, or before the end of the text. -/
lemma takeWhile_ne_lineFeed {rest tail : Text} (hrest : '\n' ∉ rest) (htail : tail = [] ∨ ∃ s, tail = '\n' :: s) :
    (rest ++ tail).takeWhile (· ≠ '\n') = rest := by
  have hplain : ∀ c ∈ rest, decide (c ≠ '\n') = true := by
    intro c hc
    apply decide_eq_true
    intro heq
    exact hrest (heq ▸ hc)
  have hstop : tail.takeWhile (· ≠ '\n') = [] := by
    rcases htail with rfl | ⟨s, rfl⟩
    · rfl
    · exact List.takeWhile_cons_of_neg (by decide)
  rw [List.takeWhile_append_of_pos hplain, hstop, List.append_nil]

lemma restAt_of_pieces {doc : Document} {p : Point} {rest : Text} (h : doc.restAt? p = some rest) :
    doc.RestAt p rest := by
  obtain ⟨piece, hpiece, hdrop⟩ := Option.bind_eq_some_iff.1 h
  obtain ⟨front, rfl, hcolumn⟩ := Text.dropBytes?_eq_some_iff.1 hdrop
  have hplain := Text.lineFeed_not_mem_of_mem_splitOn (List.mem_of_getElem? hpiece)
  rw [List.mem_append, not_or] at hplain
  have hon : doc.OnRow p.row (Text.byteLength (doc.above p.row ++ front)) := by
    have hlength := nextLineFeed_above hpiece
    rw [Text.byteLength_append] at hlength
    rw [Text.byteLength_append]
    exact ⟨lt_lineCount_of_piece hpiece, by omega, by omega⟩
  refine ⟨doc.above p.row ++ front, rest ++ Text.behind doc.pieces p.row, ?_, ?_,
    (takeWhile_ne_lineFeed hplain.2 (Text.behind_cases ..)).symm⟩
  · rw [text_eq_around_piece hpiece]
    simp only [List.append_assoc]
  · rw [hon.pointAt, Text.byteLength_append, Nat.add_sub_cancel_left, hcolumn]

lemma pieces_of_restAt {doc : Document} {p : Point} {rest : Text} (h : doc.RestAt p rest) :
    doc.restAt? p = some rest := by
  obtain ⟨before, after, htext, hpoint, rfl⟩ := h
  have hoffset : before.byteLength ≤ doc.text.byteLength := by
    rw [htext, Text.byteLength_append]
    omega
  obtain ⟨row, hon⟩ := exists_onRow hoffset
  obtain ⟨piece, hpiece⟩ := exists_piece hon.exists_row
  have hstart := hon.start_le
  have hfeed := hon.le_lineFeed
  have haround := text_eq_around_piece hpiece
  have hplain := Text.lineFeed_not_mem_of_mem_splitOn (List.mem_of_getElem? hpiece)
  rw [nextLineFeed_above hpiece] at hfeed
  rw [hon.pointAt] at hpoint
  -- The point is behind the lines above, so the text before it is these lines and a first part of the row.
  obtain ⟨front, rfl⟩ := Text.isPrefix_of_byteLength_le ⟨_, haround.symm⟩ ⟨after, htext.symm⟩ hstart
  rw [Text.byteLength_append] at hfeed hpoint
  have hsame : front ++ after = piece ++ Text.behind doc.pieces row := by
    rw [htext, List.append_assoc] at haround
    exact List.append_cancel_left haround
  have hfront : front <+: piece :=
    Text.isPrefix_of_byteLength_le ⟨after, hsame⟩ ⟨_, rfl⟩ (by omega)
  obtain ⟨rest, rfl⟩ := hfront
  rw [List.append_assoc] at hsame
  rw [List.mem_append, not_or] at hplain
  rw [List.append_cancel_left hsame, takeWhile_ne_lineFeed hplain.2 (Text.behind_cases ..), ← hpoint]
  refine Option.bind_eq_some_iff.2 ⟨front ++ rest, hpiece, ?_⟩
  exact Text.dropBytes?_eq_some_iff.2 ⟨front, rfl, by dsimp only; omega⟩

/-- The text after a point is found on its row, behind its column. -/
lemma restAt?_eq_some_iff {doc : Document} {p : Point} {rest : Text} :
    doc.restAt? p = some rest ↔ doc.RestAt p rest :=
  ⟨restAt_of_pieces, pieces_of_restAt⟩

lemma restAt?_isSome_iff {doc : Document} {p : Point} : (doc.restAt? p).isSome = true ↔ doc.HasPoint p := by
  rw [Option.isSome_iff_exists]
  exact exists_congr fun _ => restAt?_eq_some_iff

instance (doc : Document) (p : Point) : Decidable (doc.HasPoint p) :=
  decidable_of_iff _ restAt?_isSome_iff

end Document

/-! ## Texts that hold only a delimiter -/

/-- Every character of the text is white space or one of some characters. -/
def Text.HoldsOnly (t chars : Text) : Prop :=
  ∀ c ∈ t, Text.isSpace c = true ∨ c ∈ chars

lemma onlyDelimiter_iff {patterns : Patterns} {delimiter : String} {t : Text} :
    patterns.onlyDelimiter delimiter t = true ↔ t.HoldsOnly (patterns.charsOf delimiter) := by
  rw [Patterns.onlyDelimiter_eq_all, List.all_eq_true]
  refine forall₂_congr fun c _ => ?_
  rw [Bool.or_eq_true, List.contains_iff_mem]

/-- White space after a line does not change what is found behind a column of it. -/
lemma onlyDelimiter_dropBytes?_append (patterns : Patterns) (delimiter : String) (line : Text) {ending : Text}
    (h : ending.isBlank = true) (column : Nat) :
    patterns.onlyDelimiter delimiter ((Text.dropBytes? (line ++ ending) column).getD [])
      = patterns.onlyDelimiter delimiter ((line.dropBytes? column).getD []) := by
  have hending : patterns.onlyDelimiter delimiter ending = true := patterns.onlyDelimiter_of_isBlank _ h
  cases hline : line.dropBytes? column with
  | some after =>
    obtain ⟨before, rfl, hcolumn⟩ := Text.dropBytes?_eq_some_iff.1 hline
    have hboth : Text.dropBytes? (before ++ after ++ ending) column = some (after ++ ending) :=
      Text.dropBytes?_eq_some_iff.2 ⟨before, List.append_assoc .., hcolumn⟩
    rw [hboth, Option.getD_some, Option.getD_some, Patterns.onlyDelimiter_append, hending, Bool.and_true]
  | none =>
    cases hboth : Text.dropBytes? (line ++ ending) column with
    | none => rfl
    | some after =>
      obtain ⟨before, hparts, hcolumn⟩ := Text.dropBytes?_eq_some_iff.1 hboth
      rcases List.prefix_or_prefix_of_prefix ⟨after, hparts.symm⟩ (List.prefix_append line ending) with
        ⟨rest, hrest⟩ | ⟨more, rfl⟩
      · -- The line itself could be cut there.
        rw [Text.dropBytes?_eq_some_iff.2 ⟨before, hrest.symm, hcolumn⟩] at hline
        cases hline
      · -- What is left is a part of the white space.
        rw [List.append_assoc] at hparts
        have hafter : after.isBlank = true := by
          rw [List.append_cancel_left hparts] at h
          exact (Bool.and_eq_true_iff.1 (List.all_append.symm.trans h)).2
        rw [Option.getD_some, Option.getD_none, patterns.onlyDelimiter_of_isBlank _ hafter]
        exact (patterns.onlyDelimiter_of_isBlank _ rfl).symm

namespace Node

section Patterns

variable (patterns : Patterns) (delimiter : String)

/-- What decides whether a child ends its line: the text on the row on which the child starts, behind the column
at which it ends. -/
lemma onlyDelimiter_restOfLine (node : Node) (doc : Document) :
    patterns.onlyDelimiter delimiter (node.restOfLine doc)
      = patterns.onlyDelimiter delimiter ((doc.restAt? ⟨node.start.row, node.stop.column⟩).getD []) := by
  unfold restOfLine LinedText.lineD Document.restAt?
  rw [Document.line?_succ]
  dsimp only
  cases doc.pieces[node.start.row]? with
  | none => cases node.stop.column <;> rfl
  | some piece =>
    have hblank : piece.finalReturn.isBlank = true := by
      rcases piece.finalReturn_cases with hnone | hreturn
      · rw [hnone]
        rfl
      · rw [hreturn]
        decide
    have hline := onlyDelimiter_dropBytes?_append patterns delimiter piece.dropReturn hblank node.stop.column
    rw [Text.dropReturn_append_finalReturn] at hline
    exact hline.symm

lemma onlyDelimiter_restOfLine_iff {node : Node} {doc : Document} {rest : Text}
    (h : doc.RestAt ⟨node.start.row, node.stop.column⟩ rest) :
    patterns.onlyDelimiter delimiter (node.restOfLine doc) = true ↔
      rest.HoldsOnly (patterns.charsOf delimiter) := by
  rw [onlyDelimiter_restOfLine, Document.restAt?_eq_some_iff.2 h]
  exact onlyDelimiter_iff

lemma onlyDelimiter_restOfLine_of_not_hasPoint {node : Node} {doc : Document}
    (h : ¬ doc.HasPoint ⟨node.start.row, node.stop.column⟩) :
    patterns.onlyDelimiter delimiter (node.restOfLine doc) = true := by
  rw [← Document.restAt?_isSome_iff, Option.not_isSome_iff_eq_none] at h
  rw [onlyDelimiter_restOfLine, h]
  exact patterns.onlyDelimiter_of_isBlank _ rfl

end Patterns

/-! ## The delimiter of a node -/

/-- The child acts as the delimiter at an edge: it is of the kind that the attributes name, or it is marked. -/
def Delimits (child : Node) (edge : Edge) (attrs : Attributes) (marking : Marking) : Prop :=
  edge.expected attrs = some child.kind ∨ (marking.get? edge.role child.id).isSome = true

lemma isDelimiter_iff {child : Node} {edge : Edge} {attrs : Attributes} {marking : Marking} :
    child.isDelimiter edge attrs marking = true ↔ child.Delimits edge attrs marking := by
  unfold isDelimiter Delimits
  rw [Bool.or_eq_true, beq_iff_eq]
  rfl

/-- The delimiter at an edge of a node. There is none just if no child acts as one, and the one found is the first
child that does. Whether it ends its line is decided by the text behind the column at which it ends, on the row on
which it starts; where that row has no such column, it ends its line. So a child that starts and ends on one row
ends its line just if only white space and characters of the delimiter come after it on its line. Where the pattern
of the delimiter does not compile, only white space may come after it; the library of classes compiles all of them,
whatever characters the delimiter has. -/
theorem delimiter?_exact (node : Node) (patterns : Patterns) (edge : Edge) (attrs : Attributes) (marking : Marking)
    (doc : Document) :
    (node.delimiter? patterns edge attrs marking doc = none ↔
      ∀ child ∈ node.children, ¬ child.Delimits edge attrs marking) ∧
    ∀ found, node.delimiter? patterns edge attrs marking doc = some found →
      let delimiter := (edge.expected attrs).getD found.node.kind
      let chars := if (patterns.delimiterTest? delimiter).isSome then delimiter.toList else []
      (∃ earlier later, node.children = earlier ++ found.node :: later ∧
        found.node.Delimits edge attrs marking ∧ ∀ child ∈ earlier, ¬ child.Delimits edge attrs marking) ∧
      (∀ rest, doc.RestAt ⟨found.node.start.row, found.node.stop.column⟩ rest →
        (found.endsLine = true ↔ rest.HoldsOnly chars)) ∧
      (¬ doc.HasPoint ⟨found.node.start.row, found.node.stop.column⟩ → found.endsLine = true) ∧
      (found.node.start.row = found.node.stop.row → ∀ rest, doc.RestAt found.node.stop rest →
        (found.endsLine = true ↔ rest.HoldsOnly chars)) ∧
      (patterns = .classes → chars = delimiter.toList) := by
  refine ⟨?_, ?_⟩
  · unfold delimiter?
    rw [Option.map_eq_none_iff, List.find?_eq_none]
    exact forall₂_congr fun child _ => not_congr isDelimiter_iff
  · intro found hfound
    obtain ⟨child, hchild, rfl⟩ := Option.map_eq_some_iff.1 hfound
    obtain ⟨hacts, earlier, later, hsplit, hearlier⟩ := List.find?_eq_some_iff_append.1 hchild
    refine ⟨⟨earlier, later, hsplit, isDelimiter_iff.1 hacts, ?_⟩, ?_, ?_, ?_, ?_⟩
    · intro other hother hdelimits
      have hnot := hearlier other hother
      rw [isDelimiter_iff.2 hdelimits] at hnot
      cases hnot
    · intro rest hrest
      exact onlyDelimiter_restOfLine_iff patterns _ hrest
    · intro hnone
      exact onlyDelimiter_restOfLine_of_not_hasPoint patterns _ hnone
    · intro hrow rest hrest
      dsimp only at hrow hrest
      apply onlyDelimiter_restOfLine_iff
      rw [hrow]
      exact hrest
    · rintro rfl
      exact Patterns.charsOf_classes _

/-! ### A call over several rows

The call is written over three rows, and its arguments are taken for the delimiter. They start on the row of the
callee and end before the semicolon. -/

/-- The arguments of that call. -/
def spreadArguments : Node :=
  ⟨13, "argument_list", ⟨1, 7⟩, ⟨3, 10⟩, false,
    [⟨14, "(", ⟨1, 7⟩, ⟨1, 8⟩, false, []⟩, ⟨15, "identifier", ⟨2, 8⟩, ⟨2, 9⟩, false, []⟩,
      ⟨16, ",", ⟨2, 9⟩, ⟨2, 10⟩, false, []⟩, ⟨17, "identifier", ⟨3, 8⟩, ⟨3, 9⟩, false, []⟩,
      ⟨18, ")", ⟨3, 9⟩, ⟨3, 10⟩, false, []⟩]⟩

/-- That call. -/
def spreadCall : Node :=
  ⟨11, "call_expression", ⟨1, 4⟩, ⟨3, 10⟩, false,
    [⟨12, "identifier", ⟨1, 4⟩, ⟨1, 7⟩, false, []⟩, spreadArguments]⟩

/-- The text up to the end of the call. -/
def spreadStart : Text :=
  ["int main() \x7b\n", "    foo(\n", "        a,\n", "        b)"].flatMap String.toList

/-- The document with the call. -/
def spreadDocument : Document :=
  .new 1 (spreadStart ++ ";\n\x7d\n".toList)

/-- It is not so that a delimiter ends its line just if only white space and its own characters come after it there:
the arguments are said to end their line, and the semicolon comes after them. -/
theorem spreadCall_not_exact :
    (∀ place ∈ spreadCall.places [],
      spreadDocument.HasPoint place.node.start ∧ spreadDocument.HasPoint place.node.stop) ∧
    spreadCall.delimiter? .classes .opening { openDelimiter := some "argument_list" } .empty spreadDocument
      = some ⟨spreadArguments, true⟩ ∧
    spreadDocument.RestAt spreadArguments.stop [';'] ∧
    ¬ ∀ (node : Node) (edge : Edge) (attrs : Attributes) (marking : Marking) (doc : Document),
      (∀ place ∈ node.places [], doc.HasPoint place.node.start ∧ doc.HasPoint place.node.stop) →
      ∀ found, node.delimiter? .classes edge attrs marking doc = some found →
      ∀ rest, doc.RestAt found.node.stop rest →
        (found.endsLine = true ↔ rest.HoldsOnly ((edge.expected attrs).getD found.node.kind).toList) := by
  have hplaced : ∀ place ∈ spreadCall.places [],
      spreadDocument.HasPoint place.node.start ∧ spreadDocument.HasPoint place.node.stop := by
    decide +kernel
  have hfound : spreadCall.delimiter? .classes .opening { openDelimiter := some "argument_list" } .empty spreadDocument
      = some ⟨spreadArguments, true⟩ := by
    rfl
  have hrest : spreadDocument.RestAt spreadArguments.stop [';'] :=
    ⟨spreadStart, _, rfl, by decide +kernel, by decide +kernel⟩
  refine ⟨hplaced, hfound, hrest, ?_⟩
  intro hall
  have honly := (hall _ _ _ _ _ hplaced _ hfound _ hrest).1 rfl ';' (List.mem_singleton_self _)
  revert honly
  decide +kernel

end Node

end TreeIndent
