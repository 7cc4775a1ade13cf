import TreeIndent.Proofs.Document.Lines
import TreeIndent.Proofs.Text.Reindented
import TreeIndent.Proofs.Walk.Rules
import TreeIndent.Proofs.Walk.Twins

/-!
# The indent of a line whatever its indentation

The indent of a line with code on it does not depend on how the line is indented now. Another indentation
moves the positions on the line's row (`Point.Reindented`), and the walks before and after are twins with the
same rows (`Reindented.twins`): nothing that the walk reads on the row of the line depends on its columns.
-/

namespace TreeIndent

/-! ## Positions -/

/-- Where a position is after the line at a row went from an indentation of `old` characters to one of `new`.
On that row a position at the start of the line stays there, and one after the indentation keeps its distance
from it; all others stay as they are. -/
def Point.Reindented (row old new : Nat) (p q : Point) : Prop :=
  p.row = q.row ∧
    if p.row = row then p.column = 0 ∧ q.column = 0 ∨ ∃ k, p.column = old + k ∧ q.column = new + k
    else p.column = q.column

namespace Point.Reindented

variable {row old new : Nat} {p q : Point}

lemma on_row (h : Point.Reindented row old new p q) (hrow : p.row = row) :
    p.column = 0 ∧ q.column = 0 ∨ ∃ k, p.column = old + k ∧ q.column = new + k := by
  have hcolumn := h.2
  rwa [if_pos hrow] at hcolumn

lemma off_row (h : Point.Reindented row old new p q) (hrow : p.row ≠ row) : q.column = p.column := by
  have hcolumn := h.2
  rw [if_neg hrow] at hcolumn
  exact hcolumn.symm

/-- A position on another row stays. -/
lemma stays (hrow : p.row ≠ row) : Point.Reindented row old new p p :=
  ⟨rfl, by rw [if_neg hrow]⟩

/-- A position after the indentation keeps its distance from it. -/
lemma shifts (row old new k : Nat) : Point.Reindented row old new ⟨row, old + k⟩ ⟨row, new + k⟩ :=
  ⟨rfl, by rw [if_pos rfl]; exact Or.inr ⟨k, rfl, rfl⟩⟩

/-- The column of the first character lies alike among the positions before and after. -/
lemma lieAlike (row old new : Nat) :
    Point.LieAlike (Point.Reindented row old new) ⟨row, old⟩ ⟨row, old + 1⟩ ⟨row, new⟩ ⟨row, new + 1⟩ := by
  constructor <;> intro p q h
  all_goals
    have hrow := h.1
    rw [Point.lt_def, Point.lt_def]
    dsimp only
    by_cases hp : p.row = row
    · rcases h.on_row hp with ⟨hzero, hzero'⟩ | ⟨k, hk, hk'⟩ <;> omega
    · omega

end Point.Reindented

/-! ## Lines -/

namespace Document.Reindented

variable {doc other : Document} {line : Nat} {text new : Text}
  (h : doc.Reindented other line text new)

include h

lemma line_pos : line - 1 + 1 = line := by
  cases line with
  | zero => cases h.before
  | succ row => rfl

lemma lineD_before : doc.lineD line = text := by
  unfold LinedText.lineD
  rw [h.before]
  rfl

lemma lineD_after : other.lineD line = new ++ text.body := by
  unfold LinedText.lineD
  rw [h.after]
  rfl

lemma lineD_elsewhere {row : Nat} (hrow : row ≠ line - 1) : other.lineD (row + 1) = doc.lineD (row + 1) := by
  have hline := h.line_pos
  unfold LinedText.lineD
  rw [h.elsewhere (row + 1) (by omega)]

lemma isBlank_before : (doc.lineD line).isBlank = false := by
  rw [h.lineD_before]
  exact h.code

lemma isBlank_after : (other.lineD line).isBlank = false := by
  have hblank := h.code
  rw [← Text.indentation_append_body text, Text.isBlank_append text.isIndentChar_of_mem_takeWhile] at hblank
  rw [h.lineD_after, Text.isBlank_append h.indentation]
  exact hblank

lemma indentLength_after : (other.lineD line).indentLength = new.length := by
  rw [h.lineD_after]
  exact Text.indentLength_append_body h.indentation text

/-- The rest of a line after a position on it, for the sake of delimiters. -/
lemma onlyDelimiter_rest {p q : Point}
    (hmoved : Point.Reindented (line - 1) text.indentLength new.length p q) (hrow : p.row = line - 1)
    (patterns : Patterns) (delimiter : String) :
    patterns.onlyDelimiter delimiter (((new ++ text.body).dropBytes? q.column).getD [])
      = patterns.onlyDelimiter delimiter ((text.dropBytes? p.column).getD []) := by
  have hindent := text.isIndentChar_of_mem_takeWhile
  rcases hmoved.on_row hrow with ⟨hp, hq⟩ | ⟨k, hp, hq⟩
  · -- At the start of the line all of it is left: the two indentations are white space.
    rw [hp, hq, Text.dropBytes?_zero, Text.dropBytes?_zero, Option.getD_some, Option.getD_some,
      Text.onlyDelimiter_append patterns delimiter h.indentation]
    nth_rewrite 2 [← Text.indentation_append_body text]
    rw [Text.onlyDelimiter_append patterns delimiter hindent]
  · have hold : text.dropBytes? p.column = text.body.dropBytes? k := by
      nth_rewrite 1 [← Text.indentation_append_body text]
      rw [hp, Text.indentLength, ← Text.byteLength_of_indent hindent, Text.dropBytes?_append_add]
    have hnew : (new ++ text.body).dropBytes? q.column = text.body.dropBytes? k := by
      rw [hq, ← Text.byteLength_of_indent h.indentation, Text.dropBytes?_append_add]
    rw [hold, hnew]

end Document.Reindented

/-! ## Walks -/

namespace Walk

/-- Two walks that differ in the indentation of one line with code on it: the tree of the second has its
positions moved accordingly. The root of an injected layer starts on another line, and either both roots start
the text or none does. -/
structure Reindented (walk moved : Walk) (line : Nat) (text new : Text) : Prop where
  document : walk.document.Reindented moved.document line text new
  tree : walk.root.Twins (Point.Reindented (line - 1) text.indentLength new.length) moved.root
  marking : moved.marking = walk.marking
  patterns : moved.patterns = walk.patterns
  shiftWidth : moved.shiftWidth = walk.shiftWidth
  tabSize : moved.tabSize = walk.tabSize
  injected : moved.injected = walk.injected
  layer : walk.injected = true →
    walk.root.node.start.row ≠ line - 1 ∧ moved.startsText = walk.startsText

namespace Reindented

variable {walk moved : Walk} {line : Nat} {text new : Text} (h : walk.Reindented moved line text new)

include h

lemma rowIndent_eq {row : Nat} (hrow : row ≠ line - 1) : moved.rowIndent row = walk.rowIndent row := by
  unfold rowIndent LinedText.lineIndent
  rw [h.document.lineD_elsewhere hrow, h.tabSize]

lemma base_eq : moved.base = walk.base := by
  have hrow : moved.root.node.start.row = walk.root.node.start.row := h.tree.node.start.1.symm
  unfold base
  rw [h.injected, hrow]
  by_cases hinjected : walk.injected = true
  · obtain ⟨helsewhere, htext⟩ := h.layer hinjected
    rw [htext, h.rowIndent_eq helsewhere]
  · simp only [hinjected, Bool.false_and, Bool.false_eq_true, if_false]

/-- The line starts with the same node before and after. -/
lemma anchor : (walk.anchor line).Twins (Point.Reindented (line - 1) text.indentLength new.length)
    (moved.anchor line) := by
  rw [anchor_of_not_blank h.document.isBlank_before, anchor_of_not_blank h.document.isBlank_after]
  unfold firstNode Place.firstOnLine Place.atColumn
  rw [Option.getD_none, Option.getD_none, h.document.indentLength_after, h.document.lineD_before]
  exact h.tree.node.descend (Point.Reindented.lieAlike ..) h.tree.above

/-- The two walks read the same, as far as delimiters start and end on one row. -/
lemma twins : Twins (Point.Reindented (line - 1) text.indentLength new.length) id
    (fun delimiter => delimiter.start.row = delimiter.stop.row) (line - 1) walk moved where
  mono := strictMono_id
  rows p q hmoved := hmoved.1.symm
  columns p q hmoved hrow := hmoved.off_row hrow
  indents row hrow := h.rowIndent_eq hrow
  endings node node' hnode hplain delimiter := by
    have hstart : node'.start.row = node.start.row := hnode.start.1.symm
    unfold Node.restOfLine
    rw [hstart, h.patterns]
    by_cases hrow : node.start.row = line - 1
    · -- A delimiter that starts on the line ends on it too.
      rw [hrow, h.document.line_pos, h.document.lineD_before, h.document.lineD_after]
      exact h.document.onlyDelimiter_rest hnode.stop (hplain.symm.trans hrow) _ delimiter
    · -- On another row neither the text nor the column has changed.
      have hstop : node'.stop.column = node.stop.column := hnode.stop.off_row (hplain ▸ hrow)
      rw [h.document.lineD_elsewhere hrow, hstop]
  marking := h.marking
  shiftWidth := h.shiftWidth

end Reindented

/-- The indent of a line with code on it does not depend on how the line is indented, if the delimiters that
are selected on the way each start and end on one row. -/
theorem indentOf_eq_of_reindented (walk moved : Walk) (line : Nat) (text new : Text)
    (h : walk.Reindented moved line text new)
    (hdelimiters : ∀ delimiter ∈ walk.selected line, delimiter.start.row = delimiter.stop.row) :
    moved.indentOf line = walk.indentOf line :=
  h.twins.indentOf rfl rfl h.anchor h.base_eq hdelimiters

/-! ### A closing line

The last line of a call, which holds an argument and the closing parenthesis, is pinned one level past the
column after the opening one, wherever it stands now. -/

/-- The attributes by which the arguments of the call align. -/
def closingAttributes : Attributes :=
  { openDelimiter := some "(", closeDelimiter := some ")", avoidLastMatchingNext := some true }

/-- The arguments of the call, over two lines, the second of them indented with so many characters. -/
def closingArguments (columns : Nat) : Node :=
  ⟨1, "arguments", ⟨1, 7⟩, ⟨2, columns + 2⟩, false,
    [⟨2, "(", ⟨1, 7⟩, ⟨1, 8⟩, false, []⟩, ⟨3, "name", ⟨1, 8⟩, ⟨1, 9⟩, false, []⟩,
      ⟨4, "name", ⟨2, columns⟩, ⟨2, columns + 1⟩, false, []⟩,
      ⟨5, ")", ⟨2, columns + 1⟩, ⟨2, columns + 2⟩, false, []⟩]⟩

/-- The call in a block. -/
def closingCall (indentation : Text) : Walk where
  root := ⟨⟨0, "block", ⟨0, 0⟩, ⟨3, 3⟩, false, [closingArguments indentation.length]⟩, []⟩
  marking := .ofList [(.begin, 0, {}), (.align, 1, closingAttributes)]
  patterns := .classes
  document := .new 1 ("do\n    foo(a,\n".toList ++ indentation ++ "b)\nend".toList)
  shiftWidth := 4
  tabSize := 4

/-- The arguments of the call are twins under two indentations. -/
lemma closingArguments_twins (old new : Nat) :
    (closingArguments old).Twins (Point.Reindented 2 old new) (closingArguments new) := by
  have hstays : ∀ column, Point.Reindented 2 old new ⟨1, column⟩ ⟨1, column⟩ := fun column =>
    Point.Reindented.stays (show 1 ≠ 2 by decide)
  have hshifts : ∀ k, Point.Reindented 2 old new ⟨2, old + k⟩ ⟨2, new + k⟩ := fun k =>
    Point.Reindented.shifts 2 old new k
  refine .intro (hstays 7) (hshifts 2) (.cons ?_ (.cons ?_ (.cons ?_ (.cons ?_ .nil))))
  · exact .intro (hstays 7) (hstays 8) .nil
  · exact .intro (hstays 8) (hstays 9) .nil
  · exact .intro (hshifts 0) (hshifts 1) .nil
  · exact .intro (hshifts 1) (hshifts 2) .nil

/-- Indented with two spaces or with a tab, the line belongs in column twelve. -/
theorem closingCall_eq_of_reindented :
    (closingCall [' ', ' ']).Reindented (closingCall ['\t']) 3 [' ', ' ', 'b', ')'] ['\t'] ∧
      ((closingCall [' ', ' ']).selected 3).map Node.kind = ["(", ")"] ∧
      (∀ delimiter ∈ (closingCall [' ', ' ']).selected 3, delimiter.start.row = delimiter.stop.row) ∧
      (closingCall [' ', ' ']).indentOf 3 = .column 12 ∧
      (closingCall ['\t']).indentOf 3 = (closingCall [' ', ' ']).indentOf 3 := by
  have hpieces : (closingCall [' ', ' ']).document.pieces
      = ["do".toList, "    foo(a,".toList, [' ', ' ', 'b', ')'], "end".toList] := by decide
  have hpieces' : (closingCall ['\t']).document.pieces
      = ["do".toList, "    foo(a,".toList, ['\t', 'b', ')'], "end".toList] := by decide
  have hdocument : (closingCall [' ', ' ']).document.Reindented (closingCall ['\t']).document 3
      [' ', ' ', 'b', ')'] ['\t'] := by
    refine ⟨by decide, by decide, List.all_eq_true.1 (by decide), by decide, ?_⟩
    intro l hl
    rcases l with _ | _ | _ | _ | l
    · rfl
    · simp [Document.line?_succ, hpieces, hpieces']
    · simp [Document.line?_succ, hpieces, hpieces']
    · exact absurd rfl hl
    · simp [Document.line?_succ, hpieces, hpieces']
  have htree : (closingCall [' ', ' ']).root.Twins (Point.Reindented 2 2 1) (closingCall ['\t']).root := by
    refine ⟨.intro ?_ ?_ (.cons (closingArguments_twins 2 1) .nil), .nil⟩
    · exact Point.Reindented.stays (by decide)
    · exact Point.Reindented.stays (by decide)
  have hwalk : (closingCall [' ', ' ']).Reindented (closingCall ['\t']) 3 [' ', ' ', 'b', ')'] ['\t'] :=
    ⟨hdocument, htree, rfl, rfl, rfl, rfl, rfl, fun hinjected => by cases hinjected⟩
  have hplain : ∀ delimiter ∈ (closingCall [' ', ' ']).selected 3,
      delimiter.start.row = delimiter.stop.row := by decide
  refine ⟨hwalk, by decide, hplain, by decide, ?_⟩
  exact indentOf_eq_of_reindented _ _ _ _ _ hwalk hplain

end Walk

end TreeIndent
