import TreeIndent.Proofs.Text.Columns
import TreeIndent.Proofs.Walk.Sum

/-!
# Blank lines below a trailing comment

A blank line is anchored at the code above it. Where the line above ends in a comment, the lookup is made once
more before the start of that comment, and where this lands in another comment on the line, the blank line is
anchored there.

* `BelowTrailingComment`: a blank line below a line that starts with code and ends in a comment.
* `OneTrailingComment`: no other comment on the line starts before the one that it ends in.

`anchor_of_trailing_comment` says when the anchor is a comment, and that it is none below a single trailing
comment. With two comments after the code the anchor is the first of them
(`commentedFunction_anchored_at_comment`).
-/

namespace TreeIndent

/-- The node is a comment that starts on the row. -/
def Node.IsCommentOn (node : Node) (row : Nat) : Prop :=
  node.isComment = true ∧ node.start.row = row

instance (node : Node) (row : Nat) : Decidable (node.IsCommentOn row) :=
  inferInstanceAs (Decidable (_ ∧ _))

namespace Walk

/-- The node in which the last character of a line lies. -/
def lastNode (walk : Walk) (line : Nat) : Place :=
  walk.root.lastOnLine walk.document line

/-- The column of the last character that is not white space before the node in which a line ends. -/
def columnBeforeLast? (walk : Walk) (line : Nat) : Option Nat :=
  ((walk.document.lineD line).takeBytes? (walk.lastNode line).node.start.column).bind Text.lastColumn?

/-- A blank line, and the last line above it that is not blank: it starts with code and ends in a comment that
starts on it. The tree is well-formed with a number for each node, and no node ends its block. -/
structure BelowTrailingComment (walk : Walk) (line previous : Nat) : Prop where
  formed : walk.root.WellFormed
  numbered : ((walk.root :: walk.root.below).map fun place => place.node.id).Nodup
  unended : walk.marking.bucket .finish = []
  blank : (walk.document.lineD line).isBlank = true
  above : walk.document.previousNonblank? line = some previous
  starts : ∀ node ∈ (walk.firstNode previous).chain, node.isComment = false
  ends : (walk.lastNode previous).node.IsCommentOn (previous - 1)

instance (walk : Walk) (line previous : Nat) : Decidable (walk.BelowTrailingComment line previous) :=
  decidable_of_iff
    (walk.root.WellFormed ∧ ((walk.root :: walk.root.below).map fun place => place.node.id).Nodup ∧
      walk.marking.bucket .finish = [] ∧ (walk.document.lineD line).isBlank = true ∧
      walk.document.previousNonblank? line = some previous ∧
      (∀ node ∈ (walk.firstNode previous).chain, node.isComment = false) ∧
      (walk.lastNode previous).node.IsCommentOn (previous - 1))
    ⟨fun ⟨h₁, h₂, h₃, h₄, h₅, h₆, h₇⟩ => ⟨h₁, h₂, h₃, h₄, h₅, h₆, h₇⟩,
      fun h => ⟨h.formed, h.numbered, h.unended, h.blank, h.above, h.starts, h.ends⟩⟩

/-- The line starts with a character of code, its text can be cut where the comment starts in which it ends, and no
other comment on it starts before that one. -/
structure OneTrailingComment (walk : Walk) (previous : Nat) : Prop where
  code : (walk.document.lineD previous).startsWithCode = true
  cut : ((walk.document.lineD previous).takeBytes? (walk.lastNode previous).node.start.column).isSome = true
  only : ∀ place ∈ walk.root.below, place.node.IsCommentOn (previous - 1) →
    (walk.lastNode previous).node.start.column ≤ place.node.start.column

instance (walk : Walk) (previous : Nat) : Decidable (walk.OneTrailingComment previous) :=
  decidable_of_iff
    ((walk.document.lineD previous).startsWithCode = true ∧
      ((walk.document.lineD previous).takeBytes? (walk.lastNode previous).node.start.column).isSome = true ∧
      ∀ place ∈ walk.root.below, place.node.IsCommentOn (previous - 1) →
        (walk.lastNode previous).node.start.column ≤ place.node.start.column)
    ⟨fun ⟨h₁, h₂, h₃⟩ => ⟨h₁, h₂, h₃⟩, fun h => ⟨h.code, h.cut, h.only⟩⟩

namespace BelowTrailingComment

variable {walk : Walk} {line previous : Nat} (h : walk.BelowTrailingComment line previous)

include h

lemma root_not_comment : walk.root.node.isComment = false :=
  h.starts _ ((walk.root.suffix_descend _ _).mem (List.mem_cons_self ..))

/-- A comment that a lookup finds is below the root, which is none, and nothing inside it covers the column. -/
lemma innermost_of_isComment {row column : Nat}
    (hcomment : (walk.root.atColumn row column).node.isComment = true) :
    walk.root.atColumn row column ∈ walk.root.below ∧
      (walk.root.atColumn row column).node.Innermost ⟨row, column⟩ ⟨row, column + 1⟩ := by
  have hne : walk.root.descend ⟨row, column⟩ ⟨row, column + 1⟩ ≠ walk.root := by
    intro hroot
    rw [Place.atColumn_eq_descend, hroot, h.root_not_comment] at hcomment
    cases hcomment
  refine ⟨?_, ?_⟩
  · exact (List.mem_cons.1 (walk.root.descend_mem _ _)).resolve_left hne
  · exact (Place.innermost_descend h.formed (Point.lt_next row column)).resolve_left hne

/-- The line starts and ends with different nodes, since only one of them is a comment. -/
lemma id_ne : (walk.firstNode previous).node.id ≠ (walk.lastNode previous).node.id := by
  intro hid
  have hfirst : walk.firstNode previous ∈ walk.root :: walk.root.below := Place.descend_mem ..
  have hlast : walk.lastNode previous ∈ walk.root :: walk.root.below := Place.descend_mem ..
  have hsame : walk.firstNode previous = walk.lastNode previous :=
    List.inj_on_of_nodup_map h.numbered hfirst hlast hid
  have hcode := h.starts _ (List.mem_cons_self ..)
  rw [hsame, h.ends.1] at hcode
  cases hcode

/-- The trailing comment is skipped once: what is before it is taken, be it code or another comment. -/
lemma lastCodeNode_eq : walk.lastCodeNode previous =
    match walk.columnBeforeLast? previous with
    | some column => walk.root.atColumn (previous - 1) column
    | none => walk.lastNode previous := by
  have hskips : ((walk.lastNode previous).node.isComment
      && (walk.lastNode previous).node.start.row == previous - 1
      && (walk.firstNode previous).node.id != (walk.lastNode previous).node.id) = true := by
    rw [h.ends.1, h.ends.2, bne_iff_ne.2 h.id_ne, beq_self_eq_true]
    rfl
  have hbefore : walk.lastCodeNode previous =
      match (((walk.document.lineD previous).takeBytes? (walk.lastNode previous).node.start.column).getD
        (walk.document.lineD previous)).lastColumn? with
      | some column => walk.root.atColumn (previous - 1) column
      | none => walk.lastNode previous := if_pos hskips
  rw [hbefore]
  unfold columnBeforeLast?
  cases (walk.document.lineD previous).takeBytes? (walk.lastNode previous).node.start.column with
  | some before => rfl
  | none =>
    -- The text cannot be cut there, so its last character is looked up once more.
    rw [Option.getD_none, Option.bind_none]
    cases hlast : (walk.document.lineD previous).lastColumn? with
    | none => rfl
    | some column =>
      show _ = walk.root.atColumn (previous - 1) ((walk.document.lineD previous).lastColumn?.getD 0)
      rw [hlast]
      rfl

/-- The anchor is looked up at the last character before the trailing comment. -/
lemma anchor_eq : walk.anchor line =
    match walk.columnBeforeLast? previous with
    | some column => walk.root.atColumn (previous - 1) column
    | none => walk.lastNode previous := by
  have hunended : (walk.lastCodeNode previous).chain.any (walk.marks .finish) = false := by
    rw [List.any_eq_false]
    intro node _
    rw [marks_of_bucket h.unended]
    decide
  unfold anchor
  rw [if_pos h.blank, h.above]
  dsimp only
  rw [hunended]
  exact h.lastCodeNode_eq

/-- The anchor is a comment on the line just if the last character before the trailing comment lies in one,
directly and not in a node inside it, or if there is no such character. -/
lemma anchor_isCommentOn_iff :
    (walk.anchor line).node.IsCommentOn (previous - 1) ↔ ∀ column, walk.columnBeforeLast? previous = some column →
      ∃ place ∈ walk.root.below, place.node.IsCommentOn (previous - 1) ∧
        place.node.Innermost ⟨previous - 1, column⟩ ⟨previous - 1, column + 1⟩ := by
  rw [h.anchor_eq]
  cases walk.columnBeforeLast? previous with
  | none =>
    refine ⟨fun _ column hcolumn => ?_, fun _ => h.ends⟩
    cases hcolumn
  | some column =>
    constructor
    · rintro hcomment _ ⟨rfl⟩
      obtain ⟨hbelow, hinner⟩ := h.innermost_of_isComment hcomment.1
      exact ⟨_, hbelow, hcomment, hinner⟩
    · intro hall
      obtain ⟨place, hplace, hcomment, hinner⟩ := hall column rfl
      dsimp only
      rw [Place.atColumn_eq_descend, Place.descend_eq_of_innermost h.formed (Point.lt_next ..) hplace hinner]
      exact hcomment

/-! ### A single comment -/

/-- The trailing comment starts behind the first character of the line. Else it would reach around that
character, and the line would not start with code. -/
lemma indentLength_lt (hone : walk.OneTrailingComment previous) :
    (walk.document.lineD previous).indentLength < (walk.lastNode previous).node.start.column := by
  obtain ⟨last, hlast, hindent⟩ := Text.indentLength_le_lastColumn? (Text.isBlank_of_startsWithCode hone.code)
  have hfound : walk.lastNode previous = walk.root.atColumn (previous - 1) last := by
    show walk.root.atColumn (previous - 1) ((walk.document.lineD previous).lastColumn?.getD 0) = _
    rw [hlast]
    rfl
  have hends := h.ends
  rw [hfound] at hends ⊢
  obtain ⟨hbelow, hcovers, -⟩ := h.innermost_of_isComment hends.1
  by_contra hle
  have haround : (walk.root.atColumn (previous - 1) last).node.Covers
      ⟨previous - 1, (walk.document.lineD previous).indentLength⟩
      ⟨previous - 1, (walk.document.lineD previous).indentLength + 1⟩ := by
    have hrow := hends.2
    have hstop := hcovers.2
    rw [Point.le_def] at hstop
    unfold Node.Covers
    rw [Point.le_def, Point.le_def]
    dsimp only at hstop ⊢
    omega
  have hchain := Place.suffix_descend_of_covers h.formed (Point.lt_next ..) hbelow haround
  have hcode := h.starts _ (hchain.mem (List.mem_cons_self ..))
  rw [hends.1] at hcode
  cases hcode

/-- There is a character before the trailing comment that is not white space. -/
lemma exists_code (hone : walk.OneTrailingComment previous) : ∃ column,
    walk.columnBeforeLast? previous = some column ∧ column < (walk.lastNode previous).node.start.column := by
  obtain ⟨before, hbefore⟩ := Option.isSome_iff_exists.1 hone.cut
  have hlength := Text.byteLength_of_takeBytes? hbefore
  have hlong := h.indentLength_lt hone
  have hcode : before.isBlank = false :=
    Text.isBlank_of_longer_part hone.code (Text.isPrefix_of_takeBytes? hbefore) (by omega)
  unfold columnBeforeLast?
  rw [hbefore, Option.bind_some]
  cases hcolumn : before.lastColumn? with
  | none =>
    rw [Text.lastColumn?_eq_none_iff.1 hcolumn] at hcode
    cases hcode
  | some column =>
    have hlt := Text.lastColumn?_lt hcolumn
    exact ⟨column, rfl, by omega⟩

/-- A comment around that character would start before the trailing one. -/
lemma not_isCommentOn_anchor (hone : walk.OneTrailingComment previous) :
    ¬ (walk.anchor line).node.IsCommentOn (previous - 1) := by
  intro hcomment
  obtain ⟨column, hcolumn, hlt⟩ := h.exists_code hone
  obtain ⟨place, hplace, hon, hcovers, -⟩ := h.anchor_isCommentOn_iff.1 hcomment column hcolumn
  have honly := hone.only place hplace hon
  have hstart := hcovers.1
  rw [Point.le_def, hon.2] at hstart
  dsimp only at hstart
  omega

end BelowTrailingComment

/-- Below a line that starts with code and ends in a comment, the anchor of a blank line is a comment of that line
just if the last character before the trailing comment lies in one, directly and not in a node inside it, or if
there is no such character. If no other comment on the line starts before the trailing one, the anchor is none. -/
theorem anchor_of_trailing_comment (walk : Walk) (line previous : Nat)
    (h : walk.BelowTrailingComment line previous) :
    ((walk.anchor line).node.IsCommentOn (previous - 1) ↔ ∀ column, walk.columnBeforeLast? previous = some column →
      ∃ place ∈ walk.root.below, place.node.IsCommentOn (previous - 1) ∧
        place.node.Innermost ⟨previous - 1, column⟩ ⟨previous - 1, column + 1⟩) ∧
    (walk.OneTrailingComment previous → ¬ (walk.anchor line).node.IsCommentOn (previous - 1)) :=
  ⟨h.anchor_isCommentOn_iff, h.not_isCommentOn_anchor⟩

/-! ### One comment and two

A function with two statements, the first followed by one comment and the second by two, and a blank line below
each of them. -/

/-- A call without arguments as a statement, in columns four to ten of a row. -/
def callStatement (id row : Nat) : Node :=
  ⟨id, "expression_statement", ⟨row, 4⟩, ⟨row, 10⟩, false,
    [⟨id + 1, "call_expression", ⟨row, 4⟩, ⟨row, 9⟩, false,
      [⟨id + 2, "identifier", ⟨row, 4⟩, ⟨row, 7⟩, false, []⟩,
        ⟨id + 3, "argument_list", ⟨row, 7⟩, ⟨row, 9⟩, false,
          [⟨id + 4, "(", ⟨row, 7⟩, ⟨row, 8⟩, false, []⟩, ⟨id + 5, ")", ⟨row, 8⟩, ⟨row, 9⟩, false, []⟩]⟩]⟩,
      ⟨id + 6, ";", ⟨row, 9⟩, ⟨row, 10⟩, false, []⟩]⟩

/-- The function. Its comments are marked to put a line that is anchored at them at column zero; any other line is
one level deep. -/
def commentedFunction : Walk where
  root := ⟨⟨0, "translation_unit", ⟨0, 0⟩, ⟨8, 0⟩, false,
    [⟨1, "function_definition", ⟨0, 0⟩, ⟨7, 1⟩, false,
      [⟨2, "primitive_type", ⟨0, 0⟩, ⟨0, 3⟩, false, []⟩,
        ⟨3, "function_declarator", ⟨0, 4⟩, ⟨0, 10⟩, false,
          [⟨4, "identifier", ⟨0, 4⟩, ⟨0, 8⟩, false, []⟩,
            ⟨5, "parameter_list", ⟨0, 8⟩, ⟨0, 10⟩, false,
              [⟨6, "(", ⟨0, 8⟩, ⟨0, 9⟩, false, []⟩, ⟨7, ")", ⟨0, 9⟩, ⟨0, 10⟩, false, []⟩]⟩]⟩,
        ⟨8, "compound_statement", ⟨0, 11⟩, ⟨7, 1⟩, false,
          [⟨9, "\x7b", ⟨0, 11⟩, ⟨0, 12⟩, false, []⟩,
            callStatement 10 1, ⟨17, "comment", ⟨1, 11⟩, ⟨1, 18⟩, false, []⟩,
            ⟨18, "comment", ⟨3, 4⟩, ⟨3, 15⟩, false, []⟩,
            callStatement 19 5, ⟨26, "comment", ⟨5, 11⟩, ⟨5, 20⟩, false, []⟩,
            ⟨27, "comment", ⟨5, 21⟩, ⟨5, 30⟩, false, []⟩,
            ⟨28, "\x7d", ⟨7, 0⟩, ⟨7, 1⟩, false, []⟩]⟩]⟩]⟩, []⟩
  marking := .ofList [(.begin, 0, {}), (.zero, 17, {}), (.zero, 26, {}), (.zero, 27, {})]
  patterns := .classes
  document := .new 1 (["int main() \x7b\n", "    foo(); // call\n", "\n", "    /* alone */\n", "\n",
    "    bar(); /* one */ /* two */\n", "\n", "\x7d\n"].flatMap String.toList)
  shiftWidth := 4
  tabSize := 4

/-- The blank line below the one comment is anchored at the end of the statement. -/
theorem commentedFunction_anchored_at_code :
    commentedFunction.BelowTrailingComment 3 2 ∧ commentedFunction.OneTrailingComment 2 ∧
      ¬ (commentedFunction.anchor 3).node.IsCommentOn 1 ∧ (commentedFunction.anchor 3).node.kind = ";" ∧
      commentedFunction.indentOf 3 = .column 4 := by
  have hbelow : commentedFunction.BelowTrailingComment 3 2 := by decide +kernel
  have hone : commentedFunction.OneTrailingComment 2 := by decide +kernel
  obtain ⟨-, hcode⟩ := anchor_of_trailing_comment commentedFunction 3 2 hbelow
  exact ⟨hbelow, hone, hcode hone, by decide +kernel, by decide +kernel⟩

/-- It is not so that comments after the code of a line never anchor the blank line below it: below two of them
the blank line is anchored at the first and put at column zero. -/
theorem commentedFunction_anchored_at_comment :
    commentedFunction.BelowTrailingComment 7 6 ∧ (commentedFunction.anchor 7).node.id = 26 ∧
      (commentedFunction.anchor 7).node.IsCommentOn 5 ∧ commentedFunction.indentOf 7 = .column 0 ∧
      ¬ ∀ (walk : Walk) (line previous : Nat), walk.BelowTrailingComment line previous →
        ¬ (walk.anchor line).node.IsCommentOn (previous - 1) := by
  have hbelow : commentedFunction.BelowTrailingComment 7 6 := by decide +kernel
  have hcomment : (commentedFunction.anchor 7).node.IsCommentOn 5 := by decide +kernel
  exact ⟨hbelow, by decide +kernel, hcomment, by decide +kernel, fun hall => hall _ _ _ hbelow hcomment⟩

end Walk

end TreeIndent
