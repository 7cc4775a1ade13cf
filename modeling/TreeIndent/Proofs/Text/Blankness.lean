import TreeIndent.Proofs.Text.Columns

/-!
# Blank lines and leading white space

Blank lines are meant to be left empty, and the indentation of any other line is meant to end where its code
starts. Neither is so for every line. Whether a line is blank, and where its last character is, are questions about
all white space, but the indentation that is cut off is made of spaces and tabs only. A blank line with other white
space on it keeps that, and is set in before it.

* `PlainlyIndented`: that condition.
* `CodeStartsAt`: the column of the first character that is not white space. It is the end of the leading white
  space (`codeStartsAt_iff`), and the indentation is a first part of that (`indentation_prefix`).

`blank_agrees` gives the lines that are treated as meant: just those that are plainly indented. A line that starts
with a form feed is not (`formFeed_disagrees`).
-/

namespace TreeIndent.Text

/-- The white space at the start of a line is made of spaces and tabs. -/
def PlainlyIndented (t : Text) : Prop :=
  ∀ c ∈ t.takeWhile isSpace, isIndentChar c = true

instance (t : Text) : Decidable t.PlainlyIndented :=
  decidable_of_iff ((t.takeWhile isSpace).all isIndentChar = true) List.all_eq_true

/-- The first character that is not white space stands at a byte column. -/
def CodeStartsAt (t : Text) (column : Nat) : Prop :=
  ∃ (before : Text) (c : Char) (after : Text), t = before ++ c :: after ∧ before.isBlank = true ∧
    isSpace c = false ∧ column = before.byteLength

/-! ## Leading white space -/

/-- On a plainly indented line the indentation is all of the leading white space. -/
lemma plainlyIndented_iff {t : Text} :
    t.PlainlyIndented ↔ t.indentLength = byteLength (t.takeWhile isSpace) := by
  have hplain : t.PlainlyIndented ↔ t.takeWhile isIndentChar = t.takeWhile isSpace := by
    rw [indentation_eq_takeWhile_leading]
    exact List.takeWhile_eq_self_iff.symm
  rw [hplain, ← byteLength_indentation]
  exact ⟨congrArg byteLength, eq_of_isPrefix_of_byteLength t.indentation_prefix⟩

/-! ## The first character of the code -/

/-- The code of a line that is not blank starts behind its leading white space. -/
lemma codeStartsAt_iff {t : Text} (h : t.isBlank = false) {column : Nat} :
    t.CodeStartsAt column ↔ column = byteLength (t.takeWhile isSpace) := by
  constructor
  · rintro ⟨before, c, after, rfl, hblank, hc, rfl⟩
    have hbefore : ∀ d ∈ before, isSpace d = true := List.all_eq_true.1 hblank
    have hc' : ¬ isSpace c = true := by
      rw [hc]
      decide
    rw [List.takeWhile_append_of_pos hbefore, List.takeWhile_cons_of_neg hc', List.append_nil]
  · intro hcolumn
    obtain ⟨c, after, ht, hc⟩ := exists_code_of_not_blank h
    exact ⟨_, c, after, ht, List.all_takeWhile, hc, hcolumn⟩

/-! ## Lines that are left empty -/

/-- A line is left empty just if it is all indentation. -/
lemma reindent_eq_nil_iff {t : Text} {columns : Nat} :
    t.reindent columns = [] ↔ ∀ c ∈ t, isIndentChar c = true := by
  have hbody : t.body = [] ↔ ∀ c ∈ t, isIndentChar c = true := List.dropWhile_eq_nil_iff
  rw [← hbody]
  unfold reindent
  split
  · next hempty => exact ⟨fun _ => List.isEmpty_iff.1 hempty, fun _ => rfl⟩
  · next hempty =>
    rw [List.append_eq_nil_iff]
    exact ⟨And.right, fun hnil => absurd (List.isEmpty_iff.2 hnil) hempty⟩

/-- A blank line is all indentation just if it is plainly indented. -/
lemma all_isIndentChar_iff {t : Text} (h : t.isBlank = true) :
    (∀ c ∈ t, isIndentChar c = true) ↔ t.PlainlyIndented := by
  have hall : t.takeWhile isSpace = t := List.takeWhile_eq_self_iff.2 (List.all_eq_true.1 h)
  unfold PlainlyIndented
  rw [hall]

/-- Blank lines. A line has no last character just if it is blank, and it is left empty only if it is blank. A
blank line is left empty, under whatever indentation, just if it is plainly indented. On a line that is not blank
the indentation ends at the last character or before it, and it ends where the code starts just if the line is
plainly indented. -/
theorem blank_agrees (t : Text) :
    (t.isBlank = true ↔ t.lastColumn? = none) ∧
    (∀ columns, t.reindent columns = [] → t.isBlank = true) ∧
    (t.isBlank = true → ∀ columns, t.reindent columns = [] ↔ t.PlainlyIndented) ∧
    (t.isBlank = false → (t.CodeStartsAt t.indentLength ↔ t.PlainlyIndented) ∧
      ∃ last, t.lastColumn? = some last ∧ t.indentLength ≤ last) := by
  refine ⟨lastColumn?_eq_none_iff.symm, ?_, ?_, ?_⟩
  · intro columns hempty
    apply List.all_eq_true.2
    intro c hc
    exact isSpace_of_isIndentChar (reindent_eq_nil_iff.1 hempty c hc)
  · intro hblank columns
    rw [reindent_eq_nil_iff, all_isIndentChar_iff hblank]
  · intro hcode
    refine ⟨?_, indentLength_le_lastColumn? hcode⟩
    rw [codeStartsAt_iff hcode, plainlyIndented_iff]

/-- It is not so that blank lines are left empty and that the indentation of every other line ends where its code
starts: a form feed is white space, and a line with nothing else on it keeps it; before code it is not counted as
indentation. -/
theorem formFeed_disagrees :
    isBlank ['\x0c'] = true ∧ lastColumn? ['\x0c'] = none ∧
      reindent 4 ['\x0c'] = [' ', ' ', ' ', ' ', '\x0c'] ∧
      ¬ PlainlyIndented ['\x0c', 'x'] ∧ isBlank ['\x0c', 'x'] = false ∧ indentLength ['\x0c', 'x'] = 0 ∧
      CodeStartsAt ['\x0c', 'x'] 1 ∧
      (¬ ∀ t : Text, t.isBlank = true ↔ ∀ columns, t.reindent columns = []) ∧
      ¬ ∀ t : Text, t.isBlank = false → t.CodeStartsAt t.indentLength := by
  have hcode : isBlank ['\x0c', 'x'] = false := by decide
  have hstarts : CodeStartsAt ['\x0c', 'x'] 1 := (codeStartsAt_iff hcode).2 (by decide)
  refine ⟨by decide, by decide, by decide, by decide, hcode, by decide, hstarts, ?_, ?_⟩
  · intro hall
    have hempty := (hall ['\x0c']).1 (by decide) 4
    revert hempty
    decide
  · intro hall
    have hcolumn := (codeStartsAt_iff hcode).1 (hall _ hcode)
    revert hcolumn
    decide

end TreeIndent.Text
